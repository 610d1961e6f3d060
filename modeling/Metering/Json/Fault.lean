import Metering.Json.Basic
import Metering.Text.Quoted

/-!
What can be wrong with a JSON text, and how it is said.

A cause is a `JsonReason`; its wording is in `JsonReason.message` only. In a text a cause has a
place, the line from one and the count of bytes of that line up to it (`JsonFault.message`). A
value that was read before has no places, so there the cause stands alone.
-/
namespace Metering

/-- What stands where something else was expected. -/
inductive JsonFound
  | null
  | bool (b : Bool)
  | natural (n : Nat)
  | negative (i : Int)
  | binary (x : Binary64)
  | text (s : String)
  | list
  | object
deriving DecidableEq, Repr

/-- Why a JSON text or value is refused. -/
inductive JsonReason
  | endInValue
  | endInList
  | endInObject
  | endInText
  | expectedValue
  | expectedWord
  | expectedColon
  | expectedListCommaOrEnd
  | expectedObjectCommaOrEnd
  | trailingComma
  | trailingCharacters
  | keyNotText
  | badEscape
  | badNumber
  | numberOutOfRange
  | badCodePoint
  | controlCharacter
  | unpairedSurrogate
  | shortSurrogatePair
  | tooDeep
  | wrongType (found : JsonFound) (expected : String)
  | wrongValue (found : JsonFound) (expected : String)
  | wrongLength (length : Nat) (expected : String)
  | unknownVariant (name : String) (known : List String)
  | missingField (name : String)
  | repeatedField (name : String)
deriving DecidableEq, Repr

/-- A reason and the place where it was noticed. -/
structure JsonFault where
  reason : JsonReason
  line : Nat
  column : Nat
deriving DecidableEq, Repr

namespace Json

/-- The text of a binary number inside a message. -/
def binaryText (x : Binary64) : String := String.ofList (numberStyle.finite x)

end Json

namespace JsonFound

/-- What was found, in words. -/
def describe : JsonFound → String
  | null => "null"
  | bool b => s!"boolean `{b}`"
  | natural n => s!"integer `{n}`"
  | negative i => s!"integer `{i}`"
  | binary x => s!"floating point `{Json.binaryText x}`"
  | text s => "string " ++ Text.quoted s
  | list => "sequence"
  | object => "map"

/-- What a number is found to be. -/
def ofNumber : JsonNumber → JsonFound
  | .natural n => natural n
  | .negative i => negative i
  | .binary x => binary x

/-- What a whole value is found to be. -/
def ofValue : Json → JsonFound
  | .null => null
  | .bool b => bool b
  | .number n => ofNumber n
  | .text s => text s
  | .list _ => list
  | .object _ => object

end JsonFound

namespace JsonReason

/-- The names a variant could have had. -/
def choices : List String → String
  | [] => "there are no variants"
  | [a] => s!"expected `{a}`"
  | [a, b] => s!"expected `{a}` or `{b}`"
  | names => "expected one of " ++ ", ".intercalate (names.map fun n => s!"`{n}`")

/-- A record by its name and the number of its fields. -/
def recordOf (name : String) (count : Nat) : String :=
  let noun := if count = 1 then "element" else "elements"
  s!"struct {name} with {count} {noun}"

/-- The wording of each reason. -/
def message : JsonReason → String
  | endInValue => "EOF while parsing a value"
  | endInList => "EOF while parsing a list"
  | endInObject => "EOF while parsing an object"
  | endInText => "EOF while parsing a string"
  | expectedValue => "expected value"
  | expectedWord => "expected ident"
  | expectedColon => "expected `:`"
  | expectedListCommaOrEnd => "expected `,` or `]`"
  | expectedObjectCommaOrEnd => "expected `,` or `\x7d`"
  | trailingComma => "trailing comma"
  | trailingCharacters => "trailing characters"
  | keyNotText => "key must be a string"
  | badEscape => "invalid escape"
  | badNumber => "invalid number"
  | numberOutOfRange => "number out of range"
  | badCodePoint => "invalid unicode code point"
  | controlCharacter =>
    "control character (\\u0000-\\u001F) found while parsing a string"
  | unpairedSurrogate => "lone leading surrogate in hex escape"
  | shortSurrogatePair => "unexpected end of hex escape"
  | tooDeep => "recursion limit exceeded"
  | wrongType found expected => s!"invalid type: {found.describe}, expected {expected}"
  | wrongValue found expected => s!"invalid value: {found.describe}, expected {expected}"
  | wrongLength length expected => s!"invalid length {length}, expected {expected}"
  | unknownVariant name known => s!"unknown variant `{name}`, {choices known}"
  | missingField name => s!"missing field `{name}`"
  | repeatedField name => s!"duplicate field `{name}`"

end JsonReason

/-- The reason and its place. -/
def JsonFault.message (f : JsonFault) : String :=
  s!"{f.reason.message} at line {f.line} column {f.column}"

end Metering
