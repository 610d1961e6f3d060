import Metering.Bytes.Basic
import Metering.Number.Shortest

/-!
JSON documents and how they are written.

A document keeps the members of an object in a given order. A record writes its fields in the
order of their declaration; a document that was read has its members sorted by key, and a
repeated key keeps the last value (`insertMember`).

Whole numbers up to 64 bits stay exact; every other number is binary. A binary number is written
with its shortest digits, positionally when the first digit stands between the fifth place after
the point and the sixteenth before it, and what is not finite is written `null`.

`write` puts no blanks; `writeIndented` indents by two.
-/
namespace Metering

/-- A number of a document. -/
inductive JsonNumber
  | natural (n : Nat)
  | negative (i : Int)
  | binary (x : Binary64)
deriving DecidableEq, Repr

/-- A JSON document. -/
inductive Json
  | null
  | bool (b : Bool)
  | number (n : JsonNumber)
  | text (s : String)
  | list (items : List Json)
  | object (members : List (String × Json))
deriving Repr, Inhabited

namespace Json

/-- The number of a signed whole value. -/
def int (i : Int) : Json :=
  .number (if 0 ≤ i then .natural i.toNat else .negative i)

def nat (n : Nat) : Json := .number (.natural n)

def binary (x : Binary64) : Json := .number (.binary x)

/-- Puts a member in its place by key; an equal key gets the new value. -/
def insertMember (key : String) (value : Json) : List (String × Json) → List (String × Json)
  | [] => [(key, value)]
  | (k, v) :: rest =>
    if key < k then (key, value) :: (k, v) :: rest
    else if k < key then (k, v) :: insertMember key value rest
    else (key, value) :: rest

/-! ## Writing -/

/-- In a document a whole number keeps its `.0`, and a tie goes to the even digit. -/
def numberStyle : NumberStyle := ⟨.even, true, fun e => decide (-5 ≤ e ∧ e ≤ 15)⟩

/-- The characters of a number; what is not finite has none and is written `null`. -/
def numberText : JsonNumber → List Char
  | .natural n => Digits.toDigits n
  | .negative i => Digits.ofInt i
  | .binary x => if x.isFinite then numberStyle.finite x else ['n', 'u', 'l', 'l']

/-- A run of ASCII characters as bytes. -/
def ascii (cs : List Char) : Bytes := cs.map fun c => UInt8.ofNat c.toNat

/-- The digit of a value below sixteen, as a byte. -/
def hexByte (n : Nat) : UInt8 := if n < 10 then UInt8.ofNat (48 + n) else UInt8.ofNat (87 + n)

/-- One byte of a quoted text: quotes, backslashes and control characters are escaped. -/
def escapeByte (b : UInt8) : Bytes :=
  if b = 0x22 then [0x5c, 0x22]
  else if b = 0x5c then [0x5c, 0x5c]
  else if b = 0x08 then [0x5c, 0x62]
  else if b = 0x09 then [0x5c, 0x74]
  else if b = 0x0a then [0x5c, 0x6e]
  else if b = 0x0c then [0x5c, 0x66]
  else if b = 0x0d then [0x5c, 0x72]
  else if b < 0x20 then
    [0x5c, 0x75, 0x30, 0x30, hexByte (b.toNat / 16), hexByte (b.toNat % 16)]
  else [b]

/-- A text between quotes. -/
def quote (s : String) : Bytes := 0x22 :: (Bytes.ofText s).flatMap escapeByte ++ [0x22]

mutual

/-- The document without any blanks. -/
def write : Json → Bytes
  | .null => ascii ['n', 'u', 'l', 'l']
  | .bool true => ascii ['t', 'r', 'u', 'e']
  | .bool false => ascii ['f', 'a', 'l', 's', 'e']
  | .number n => ascii (numberText n)
  | .text s => quote s
  | .list [] => [0x5b, 0x5d]
  | .list (x :: xs) => 0x5b :: write x ++ writeItems xs
  | .object [] => [0x7b, 0x7d]
  | .object ((k, v) :: ms) => 0x7b :: quote k ++ 0x3a :: write v ++ writeMembers ms

/-- The items after the first, each behind a comma, and the closing bracket. -/
def writeItems : List Json → Bytes
  | [] => [0x5d]
  | x :: xs => 0x2c :: write x ++ writeItems xs

/-- The members after the first, each behind a comma, and the closing brace. -/
def writeMembers : List (String × Json) → Bytes
  | [] => [0x7d]
  | (k, v) :: ms => 0x2c :: quote k ++ 0x3a :: write v ++ writeMembers ms

end

/-- A new line and two blanks for each level. -/
def newLine (level : Nat) : Bytes := 0x0a :: List.replicate (2 * level) 0x20

mutual

/-- The document over several lines; what is empty stays on one. -/
def writeIndented (level : Nat) : Json → Bytes
  | .list [] => [0x5b, 0x5d]
  | .list (x :: xs) =>
    0x5b :: newLine (level + 1) ++ writeIndented (level + 1) x ++ indentedItems level xs
  | .object [] => [0x7b, 0x7d]
  | .object ((k, v) :: ms) =>
    0x7b :: newLine (level + 1) ++ quote k ++ 0x3a :: 0x20 :: writeIndented (level + 1) v ++
      indentedMembers level ms
  | .null => write .null
  | .bool b => write (.bool b)
  | .number n => write (.number n)
  | .text s => write (.text s)

def indentedItems (level : Nat) : List Json → Bytes
  | [] => newLine level ++ [0x5d]
  | x :: xs =>
    0x2c :: newLine (level + 1) ++ writeIndented (level + 1) x ++ indentedItems level xs

def indentedMembers (level : Nat) : List (String × Json) → Bytes
  | [] => newLine level ++ [0x7d]
  | (k, v) :: ms =>
    0x2c :: newLine (level + 1) ++ quote k ++ 0x3a :: 0x20 :: writeIndented (level + 1) v ++
      indentedMembers level ms

end

end Json
end Metering
