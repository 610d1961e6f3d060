import Metering.Json.Reader

/-!
Taking values out of a document that has been read.

The rules are those of reading from a text, except that faults have no place, that members come
in the order of the document, and that a list which is too long is refused by its length.
-/
namespace Metering

namespace Json

/-- A signed 64-bit whole number. -/
def acceptInt64 : JsonNumber → Except JsonReason Int64
  | .natural n =>
    if n < 0x8000000000000000 then .ok (.ofNat n) else .error (.wrongValue (.natural n) "i64")
  | .negative i => .ok (.ofInt i)
  | .binary x => .error (.wrongType (.binary x) "i64")

/-- An unsigned 64-bit whole number. -/
def acceptUInt64 : JsonNumber → Except JsonReason UInt64
  | .natural n => .ok (.ofNat n)
  | .negative i => .error (.wrongValue (.negative i) "u64")
  | .binary x => .error (.wrongType (.binary x) "u64")

/-- The binary number nearest to a number. -/
def acceptBinary : JsonNumber → Binary64
  | .natural n => .ofQuotient false n 1
  | .negative i => .ofInt i
  | .binary x => x

end Json

namespace JsonShape

/-- Refuses a value that is not of the expected type. -/
def refuse (expected : String) (j : Json) : Except JsonReason α :=
  .error (.wrongType (.ofValue j) expected)

def text : Json → Except JsonReason String
  | .text s => .ok s
  | j => refuse "a string" j

def unit : Json → Except JsonReason Unit
  | .null => .ok ()
  | j => refuse "unit" j

def list : Json → Except JsonReason (List Json)
  | .list xs => .ok xs
  | j => refuse "a sequence" j

/-- `null`, or a value. -/
def optional (value : Json → Except JsonReason α) : Json → Except JsonReason (Option α)
  | .null => .ok none
  | j => some <$> value j

def numberOf (expected : String) (accept : JsonNumber → Except JsonReason α) :
    Json → Except JsonReason α
  | .number n => accept n
  | j => refuse expected j

/-- One of the known names: its text, or an object with the name as only key and `null`. -/
def variant (known : List String) : Json → Except JsonReason String
  | .text name => if known.contains name then .ok name else .error (.unknownVariant name known)
  | .object [(name, inner)] => do
    if known.contains name then
      unit inner
      return name
    else .error (.unknownVariant name known)
  | .object _ => .error (.wrongValue .object "map with a single key")
  | j => refuse "string or map" j

/-- A field of a record: its name and how its value goes into a draft. -/
abbrev Field (σ : Type) := String × (σ → Json → Except JsonReason σ)

/-- Takes the members of an object into a draft; unknown ones are passed over. -/
def takeMembers (fields : List (Field σ)) (draft : σ) :
    List (String × Json) → Except JsonReason σ
  | [] => .ok draft
  | (key, v) :: more =>
    match fields.find? fun f => f.1 == key with
    | none => takeMembers fields draft more
    | some f => do takeMembers fields (← f.2 draft v) more

/-- Takes the items of a list as the fields in order. `given` is the length of the whole list,
and `least` of its items must be there. -/
def takeItems (name : String) (count least given : Nat) :
    Nat → List (Field σ) → σ → List Json → Except JsonReason σ
  | _, [], draft, [] => .ok draft
  | _, [], _, _ :: _ => .error (.wrongLength given "fewer elements in array")
  | index, _ :: _, draft, [] =>
    if index < least then .error (.wrongLength index (JsonReason.recordOf name count))
    else .ok draft
  | index, f :: fields, draft, v :: more => do
    takeItems name count least given (index + 1) fields (← f.2 draft v) more

/-- A record, from an object or from the list of its fields. -/
def record (name : String) (least : Nat) (fields : List (Field σ)) (blank : σ)
    (build : σ → Except String α) (j : Json) : Except JsonReason α := do
  let draft ← match j with
    | .object ms => takeMembers fields blank ms
    | .list xs =>
      let draft ← takeItems name fields.length least xs.length 0 fields blank xs
      pure draft
    | j => refuse s!"struct {name}" j
  match build draft with
  | .ok a => .ok a
  | .error field => .error (.missingField field)

end JsonShape
end Metering
