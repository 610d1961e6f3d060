import Metering.Json.Skip

/-!
Reading documents and records from a JSON text.

Records are read as they stand in the text, so the first fault in the order of the text is the
one that is reported. A record may be an object, or a list of its fields in the order of their
declaration (`record`). Unknown fields are skipped and a repeated one is refused. A fault that
concerns the record as a whole, such as a missing field, is placed behind the closing bracket if
that is what comes next.
-/
namespace Metering.JsonReader

/-- How deep lists and objects may nest, the outermost one included. -/
def depthLimit : Nat := 127

/-! ## Wrong types -/

/-- Refuses the value at the cursor, which is not of the expected type. A word, a number or a
text is read first, and its own fault wins. -/
def refuse (expected : String) : JsonReader α := do
  match ← peek with
  | some 0x6e => bump; wordNull; failHere (.wrongType .null expected)
  | some 0x74 => bump; wordTrue; failHere (.wrongType (.bool true) expected)
  | some 0x66 => bump; wordFalse; failHere (.wrongType (.bool false) expected)
  | some 0x22 =>
    bump
    let s ← textBody
    failHere (.wrongType (.text s) expected)
  | some 0x5b => failHere (.wrongType .list expected)
  | some 0x7b => failHere (.wrongType .object expected)
  | some b =>
    if b = 0x2d ∨ isDigit b then
      let n ← signedNumber
      failHere (.wrongType (.ofNumber n) expected)
    else failAhead .expectedValue
  | none => failAhead .expectedValue

/-- Passes blanks and looks at the value that must follow. -/
def start : JsonReader UInt8 := do
  match ← peekToken with
  | none => failAhead .endInValue
  | some b => pure b

/-! ## Brackets -/

/-- Whether another item follows in a list; its comma is passed. -/
def moreItems (first : Bool) : JsonReader Bool := do
  match ← peekToken with
  | none => failAhead .endInList
  | some 0x5d => pure false
  | some b =>
    if first then pure true
    else if b = 0x2c then
      bump
      match ← peekToken with
      | none => failAhead .endInValue
      | some 0x5d => failAhead .trailingComma
      | some _ => pure true
    else failAhead .expectedListCommaOrEnd

/-- The closing bracket of a list. -/
def closeList : JsonReader Unit := do
  match ← peekToken with
  | none => failAhead .endInList
  | some 0x5d => bump
  | some 0x2c =>
    bump
    match ← peekToken with
    | some 0x5d => failAhead .trailingComma
    | _ => failAhead .trailingCharacters
  | some _ => failAhead .trailingCharacters

/-- Whether another member follows in an object; its comma and opening quote are passed. -/
def moreMembers (first : Bool) : JsonReader Bool := do
  match ← peekToken with
  | none => failAhead .endInObject
  | some 0x7d => pure false
  | some b =>
    if first then
      if b = 0x22 then
        bump
        pure true
      else failAhead .keyNotText
    else if b = 0x2c then
      bump
      match ← peekToken with
      | none => failAhead .endInValue
      | some 0x22 => bump; pure true
      | some 0x7d => failAhead .trailingComma
      | some _ => failAhead .keyNotText
    else failAhead .expectedObjectCommaOrEnd

/-- The closing brace of an object. -/
def closeObject : JsonReader Unit := do
  match ← peekToken with
  | none => failAhead .endInObject
  | some 0x7d => bump
  | some 0x2c => failAhead .trailingComma
  | some _ => failAhead .trailingCharacters

/-- The colon behind a key. -/
def colon : JsonReader Unit := do
  match ← peekToken with
  | none => failAhead .endInObject
  | some 0x3a => bump
  | some _ => failAhead .expectedColon

/-- The items of a list up to its closing bracket. -/
def items (item : JsonReader α) : Bytes → Bool → JsonReader (List α)
  | [], _ => failAhead .endInList
  | _ :: fuel, first => do
    if ← moreItems first then
      let head ← item
      let tail ← items item fuel false
      pure (head :: tail)
    else pure []

/-- Folds the members of an object up to its closing brace. -/
def members (step : σ → String → JsonReader σ) : Bytes → Bool → σ → JsonReader σ
  | [], _, _ => failAhead .endInObject
  | _ :: fuel, first, acc => do
    if ← moreMembers first then
      let key ← textBody
      let acc ← step acc key
      members step fuel false acc
    else pure acc

/-- A list whose items are read by `item`. -/
def list (item : JsonReader α) : JsonReader (List α) := do
  if (← start) = 0x5b then
    bump
    let xs ← items item (← steps) true
    closeList
    pure xs
  else refuse "a sequence"

/-- An object whose members are folded by `step`. -/
def object (step : σ → String → JsonReader σ) (init : σ) : JsonReader σ := do
  if (← start) = 0x7b then
    bump
    let acc ← members step (← steps) true init
    closeObject
    pure acc
  else refuse "a map"

/-! ## Scalars -/

/-- A text. -/
def text : JsonReader String := do
  if (← start) = 0x22 then
    bump
    textBody
  else refuse "a string"

/-- A number that `accept` takes, or the reason why not. -/
def numberOf (expected : String) (accept : JsonNumber → Except JsonReason α) : JsonReader α := do
  let b ← start
  if b = 0x2d ∨ isDigit b then
    match accept (← signedNumber) with
    | .ok a => pure a
    | .error reason => failHere reason
  else refuse expected

/-- `null`, or a value. -/
def optional (value : JsonReader α) : JsonReader (Option α) := do
  match ← peekToken with
  | some 0x6e => bump; wordNull; pure none
  | _ => some <$> value

/-- `null`. -/
def unit : JsonReader Unit := do
  if (← start) = 0x6e then
    bump
    wordNull
  else refuse "unit"

/-- The name of a variant among the known ones. -/
def variantName (known : List String) : JsonReader String := do
  if (← start) = 0x22 then
    bump
    let name ← textBody
    if known.contains name then pure name else failHere (.unknownVariant name known)
  else refuse "variant identifier"

/-- One of the known names: its text, or an object with the name as only key and `null`. -/
def variant (known : List String) : JsonReader String := do
  match ← peekToken with
  | none => failAhead .endInValue
  | some 0x22 => variantName known
  | some 0x7b =>
    bump
    let name ← variantName known
    colon
    unit
    match ← peekToken with
    | none => failHere .endInObject
    | some 0x7d => bump; pure name
    | some _ => failHere .expectedValue
  | some _ => failAhead .expectedValue

/-! ## Any value -/

/-- A value of any kind, with a reader for what stands inside brackets, if those may be opened. -/
def valueWith (inner : Option (JsonReader Json)) : JsonReader Json := do
  match ← start with
  | 0x6e => bump; wordNull; pure .null
  | 0x74 => bump; wordTrue; pure (.bool true)
  | 0x66 => bump; wordFalse; pure (.bool false)
  | 0x22 => bump; .text <$> textBody
  | 0x5b =>
    match inner with
    | none => failAhead .tooDeep
    | some value =>
      bump
      let xs ← items value (← steps) true
      closeList
      pure (.list xs)
  | 0x7b =>
    match inner with
    | none => failAhead .tooDeep
    | some value =>
      bump
      let ms ← members (fun acc key => do
        colon
        let v ← value
        pure (Json.insertMember key v acc)) (← steps) true []
      closeObject
      pure (.object ms)
  | b =>
    if b = 0x2d ∨ isDigit b then .number <$> signedNumber
    else failAhead .expectedValue

/-- A value of any kind; `depth` brackets may be opened inside each other. -/
def value : Nat → JsonReader Json
  | 0 => valueWith none
  | depth + 1 => valueWith (some (value depth))

/-! ## Records -/

/-- A field of a record: its name, whether a draft has it already, and how its value is read. -/
structure Field (σ : Type) where
  name : String
  given : σ → Bool
  read : σ → JsonReader σ

/-- How a record is read: its fields in order, of which a list must hold the first `least`, and
how a draft becomes the record or lacks a field. -/
structure RecordShape (σ α : Type) where
  name : String
  fields : List (Field σ)
  least : Nat
  blank : σ
  build : σ → Except String α

/-- Where a fault of a whole object is placed: behind its brace, if that comes next. -/
def afterObject (c : JsonCursor) : JsonCursor :=
  let c := c.skipBlanks
  if c.rest.head? = some 0x7d then c.next else c

/-- Where a fault of a whole list is placed: behind its bracket, if that comes next. -/
def afterList (c : JsonCursor) : JsonCursor :=
  let c := c.skipBlanks
  if c.rest.head? = some 0x5d then c.next
  else if c.rest.head? = some 0x2c then c.next.skipBlanks
  else c

/-- Fails with a fault of the whole object. -/
def failObject (reason : JsonReason) : JsonReader α := fun c =>
  .error ((afterObject c).here reason)

/-- Fails with a fault of the whole list. -/
def failList (reason : JsonReason) : JsonReader α := fun c =>
  .error ((afterList c).here reason)

/-- Takes one member into a draft. -/
def takeMember (fields : List (Field σ)) (draft : σ) (key : String) : JsonReader σ := do
  match fields.find? fun f => f.name == key with
  | none =>
    colon
    skipValue
    pure draft
  | some f =>
    if f.given draft then failObject (.repeatedField key)
    else
      colon
      f.read draft

/-- Takes the items of a list as the fields in order, from the one at `index` on. -/
def takeItems (shape : RecordShape σ α) : Nat → List (Field σ) → σ → JsonReader σ
  | _, [], draft => pure draft
  | index, f :: more, draft => do
    if ← moreItems (index == 0) then
      let draft ← f.read draft
      takeItems shape (index + 1) more draft
    else if index < shape.least then
      failList (.wrongLength index (JsonReason.recordOf shape.name shape.fields.length))
    else pure draft

/-- A record, from an object or from the list of its fields. -/
def record (shape : RecordShape σ α) : JsonReader α := do
  match ← start with
  | 0x5b =>
    bump
    let draft ← takeItems shape 0 shape.fields shape.blank
    match shape.build draft with
    | .ok a =>
      closeList
      pure a
    | .error name => failList (.missingField name)
  | 0x7b =>
    bump
    let draft ← members (takeMember shape.fields) (← steps) true shape.blank
    match shape.build draft with
    | .ok a =>
      closeObject
      pure a
    | .error name => failObject (.missingField name)
  | _ => refuse s!"struct {shape.name}"

/-! ## Whole texts -/

/-- Reads a text that holds one value and nothing after it. -/
def run (reader : JsonReader α) (text : Bytes) : Except JsonFault α :=
  match reader (.start text) with
  | .error e => .error e
  | .ok (a, c) =>
    let c := c.skipBlanks
    if c.rest = [] then .ok a else .error (c.ahead .trailingCharacters)

end Metering.JsonReader
