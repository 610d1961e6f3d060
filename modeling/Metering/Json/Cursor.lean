import Metering.Json.Fault

/-!
A place in a JSON text that is being read.

The cursor holds what is still unread and the place reached: lines count from one and the column
is the number of bytes read of the line. A fault is placed either where the cursor stands
(`here`) or one byte further, on the byte that it looks at (`ahead`). A reader is a function from
a cursor to a value and a later cursor, or to a fault.
-/
namespace Metering

/-- The unread rest of a text and the place reached. -/
structure JsonCursor where
  rest : Bytes
  line : Nat
  column : Nat
deriving DecidableEq, Repr

/-- Reads a value from a text and moves the cursor behind it. -/
abbrev JsonReader := StateT JsonCursor (Except JsonFault)

namespace JsonCursor

/-- The start of a text. -/
def start (text : Bytes) : JsonCursor := ⟨text, 1, 0⟩

/-- One byte further; a line feed ends its line. -/
def next (c : JsonCursor) : JsonCursor :=
  match c.rest with
  | [] => c
  | 0x0a :: rest => ⟨rest, c.line + 1, 0⟩
  | _ :: rest => ⟨rest, c.line, c.column + 1⟩

/-- Whether a byte may stand between any two tokens. -/
def isBlank (b : UInt8) : Bool := b == 0x20 || b == 0x0a || b == 0x09 || b == 0x0d

/-- Past the first `n` bytes. -/
def advance : Nat → JsonCursor → JsonCursor
  | 0, c => c
  | n + 1, c => advance n c.next

/-- Past the blanks. -/
def skipBlanks (c : JsonCursor) : JsonCursor := c.advance (c.rest.takeWhile isBlank).length

/-- A fault at the place reached. -/
def here (c : JsonCursor) (reason : JsonReason) : JsonFault := ⟨reason, c.line, c.column⟩

/-- A fault on the byte that is looked at. -/
def ahead (c : JsonCursor) (reason : JsonReason) : JsonFault := c.next.here reason

end JsonCursor

namespace JsonReader

/-- Fails at the place reached. -/
def failHere (reason : JsonReason) : JsonReader α := fun c => .error (c.here reason)

/-- Fails on the byte that is looked at. -/
def failAhead (reason : JsonReason) : JsonReader α := fun c => .error (c.ahead reason)

/-- The byte looked at, without moving. -/
def peek : JsonReader (Option UInt8) := fun c => .ok (c.rest.head?, c)

/-- Moves past the byte looked at. -/
def bump : JsonReader Unit := fun c => .ok ((), c.next)

/-- The byte after any blanks, which are passed. -/
def peekToken : JsonReader (Option UInt8) := fun c =>
  let c := c.skipBlanks
  .ok (c.rest.head?, c)

/-- The bound of a loop over the unread bytes: it holds one byte for each step, of which there are
at most one more than unread bytes. -/
def steps : JsonReader Bytes := fun c => .ok (0 :: c.rest, c)

/-! ## Words -/

/-- The rest of a word whose first letter was read. -/
def word : Bytes → JsonReader Unit
  | [] => pure ()
  | expected :: more => do
    match ← peek with
    | none => failHere .endInValue
    | some b =>
      bump
      if b = expected then word more else failHere .expectedWord

def wordNull : JsonReader Unit := word [0x75, 0x6c, 0x6c]
def wordTrue : JsonReader Unit := word [0x72, 0x75, 0x65]
def wordFalse : JsonReader Unit := word [0x61, 0x6c, 0x73, 0x65]

/-! ## Texts -/

/-- The value of four hexadecimal digits. -/
def hexValue? : Bytes → Option Nat
  | [] => some 0
  | b :: more =>
    match Hex.value? (Char.ofNat b.toNat), hexValue? more with
    | some v, some rest => some (v * Nat.pow 16 more.length + rest)
    | _, _ => none

/-- Four digits of an escape. -/
def hexEscape : JsonReader Nat := fun c =>
  let ds := c.rest.take 4
  let after := c.advance ds.length
  if ds.length < 4 then .error (after.here .endInText)
  else
    match hexValue? ds with
    | some v => .ok (v, after)
    | none => .error (after.here .badEscape)

/-- The bytes of a code point. -/
def codePointBytes (n : Nat) : Bytes := Bytes.ofText (String.singleton (Char.ofNat n))

/-- Whether the next byte is the given one, which is then passed. -/
def follows (b : UInt8) : JsonReader Bool := do
  match ← peek with
  | none => failHere .endInText
  | some x =>
    bump
    pure (x == b)

/-- A `\u` escape; a leading surrogate needs its partner right behind it. -/
def unicodeEscape : JsonReader Bytes := do
  let n ← hexEscape
  if 0xdc00 ≤ n ∧ n ≤ 0xdfff then failHere .unpairedSurrogate
  else if n < 0xd800 ∨ 0xdbff < n then pure (codePointBytes n)
  else if !(← follows 0x5c) then failHere .shortSurrogatePair
  else if !(← follows 0x75) then failHere .shortSurrogatePair
  else
    let m ← hexEscape
    if m < 0xdc00 ∨ 0xdfff < m then failHere .unpairedSurrogate
    else pure (codePointBytes (0x10000 + (n - 0xd800) * 0x400 + (m - 0xdc00)))

/-- The byte that a short escape stands for. -/
def shortEscape? (b : UInt8) : Option UInt8 :=
  if b = 0x22 then some 0x22
  else if b = 0x5c then some 0x5c
  else if b = 0x2f then some 0x2f
  else if b = 0x62 then some 0x08
  else if b = 0x66 then some 0x0c
  else if b = 0x6e then some 0x0a
  else if b = 0x72 then some 0x0d
  else if b = 0x74 then some 0x09
  else none

/-- What an escape stands for, behind its backslash. -/
def escape : JsonReader Bytes := do
  match ← peek with
  | none => failHere .endInText
  | some b =>
    bump
    if b = 0x75 then unicodeEscape
    else match shortEscape? b with
      | some x => pure [x]
      | none => failHere .badEscape

/-- The bytes up to the closing quote, which is passed. -/
def textBytes : Bytes → JsonReader Bytes
  | [] => failHere .endInText
  | _ :: fuel => do
    match ← peek with
    | none => failHere .endInText
    | some b =>
      bump
      if b = 0x22 then pure []
      else if b = 0x5c then
        let head ← escape
        let tail ← textBytes fuel
        pure (head ++ tail)
      else if b < 0x20 then failHere .controlCharacter
      else
        let tail ← textBytes fuel
        pure (b :: tail)

/-- Moves on until `count` bytes of a text have been taken, escapes counting as what they stand
for. -/
def passTextBytes : Bytes → Nat → JsonReader Unit
  | [], _ => pure ()
  | _, 0 => pure ()
  | _ :: fuel, count => do
    let b ← peek
    bump
    if b = some 0x5c then
      let taken ← escape
      passTextBytes fuel (count - taken.length)
    else passTextBytes fuel (count - 1)

/-- A text, behind its opening quote. Bytes that are no text are refused at the first of them. -/
def textBody : JsonReader String := do
  let opening ← get
  let bound ← steps
  let b ← textBytes bound
  match Bytes.toText? b with
  | some s => pure s
  | none =>
    set opening
    passTextBytes bound b.wellFormedLength
    failAhead .badCodePoint

/-! ## Numbers -/

/-- Whether a byte is a digit. -/
def isDigit (b : UInt8) : Bool := 0x30 ≤ b && b ≤ 0x39

/-- The value of a digit. -/
def digitValue (b : UInt8) : Nat := b.toNat - 48

/-- The run of digits at the cursor. -/
def digits : JsonReader Bytes := fun c =>
  let ds := c.rest.takeWhile isDigit
  .ok (ds, c.advance ds.length)

/-- The number that a run of digits spells. -/
def natOf (ds : Bytes) : Nat := ds.foldl (fun n b => n * 10 + digitValue b) 0

/-- The greatest power of ten that is counted exactly. -/
def powerLimit : Nat := 0x7fffffff

/-- How many digits of a power can be taken until it passes the limit: all of them (`none`), or
up to and with the one that passes it. -/
def overLimit? : Nat → Nat → Bytes → Option Nat
  | _, _, [] => none
  | taken, n, b :: more =>
    let n := n * 10 + digitValue b
    if powerLimit < n then some (taken + 1) else overLimit? (taken + 1) n more

/-- What the written digits of a number are, before rounding. -/
structure Spelled where
  negative : Bool
  coefficient : Nat
  places : Nat
deriving Repr

/-- The rounded value of the digits with a power of ten; infinity is out of range. -/
def rounded (s : Spelled) (power : Int) : JsonReader JsonNumber := do
  let x := (Decimal.mk s.negative s.coefficient (power - s.places)).toBinary64
  if x.isFinite then pure (.binary x) else failHere .numberOutOfRange

/-- The exponent of a number, on its `e`. A power beyond the limit is out of range as soon as
that shows, unless it is negative or the digits are all zero: then the number is zero. -/
def exponent (s : Spelled) : JsonReader JsonNumber := do
  bump
  let positive ← do
    match ← peek with
    | some 0x2b => bump; pure true
    | some 0x2d => bump; pure false
    | _ => pure true
  match ← peek with
  | none => failHere .endInValue
  | some b =>
    if !isDigit b then
      bump
      failHere .badNumber
    else
      let c ← get
      let ds ← digits
      match overLimit? 0 0 ds with
      | some taken =>
        if positive ∧ s.coefficient ≠ 0 then
          set (c.advance taken)
          failHere .numberOutOfRange
        else pure (.binary (.ofRank s.negative 0))
      | none => rounded s (if positive then (natOf ds : Int) else -(natOf ds : Int))

/-- What may follow the whole part: a fraction, an exponent or nothing. -/
def afterWhole (negative : Bool) (whole : Nat) : JsonReader JsonNumber := do
  match ← peek with
  | some 0x2e =>
    bump
    let ds ← digits
    let next ← peek
    if ds = [] then
      match next with
      | none => failAhead .endInValue
      | some _ => failAhead .badNumber
    else
      let s : Spelled := ⟨negative, whole * Nat.pow 10 ds.length + natOf ds, ds.length⟩
      match next with
      | some 0x65 | some 0x45 => exponent s
      | _ => rounded s 0
  | some 0x65 | some 0x45 => exponent ⟨negative, whole, 0⟩
  | _ =>
    if negative then
      if whole = 0 ∨ 0x8000000000000000 < whole then rounded ⟨true, whole, 0⟩ 0
      else pure (.negative (-(whole : Int)))
    else if whole < 0x10000000000000000 then pure (.natural whole)
    else rounded ⟨false, whole, 0⟩ 0

/-- A number behind its sign. A zero stands alone before the point. -/
def number (negative : Bool) : JsonReader JsonNumber := do
  match ← peek with
  | none => failHere .endInValue
  | some b =>
    if b = 0x30 then
      bump
      match ← peek with
      | some d => if isDigit d then failAhead .badNumber else afterWhole negative 0
      | none => afterWhole negative 0
    else if isDigit b then
      let ds ← digits
      afterWhole negative (natOf ds)
    else
      bump
      failHere .badNumber

/-- A number from its sign on. -/
def signedNumber : JsonReader JsonNumber := do
  match ← peek with
  | some 0x2d => bump; number true
  | _ => number false

end JsonReader
end Metering
