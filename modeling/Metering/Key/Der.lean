import Metering.Bytes.Basic

/-!
Elements of the distinguished encoding, as far as keys are made of them.

An element is a tag, a length in its shortest form, and contents of that length. Whole numbers
are non-negative and have no needless zeros in front.
-/
namespace Metering.Der

/-- A reader that takes elements off the head of a byte string. -/
abbrev Reader (α : Type) := StateT Bytes Option α

def integerTag : UInt8 := 0x02
def bitStringTag : UInt8 := 0x03
def octetStringTag : UInt8 := 0x04
def nullTag : UInt8 := 0x05
def identifierTag : UInt8 := 0x06
def sequenceTag : UInt8 := 0x30

/-- The length at the head of a byte string, and what follows it. -/
def length? : Bytes → Option (Nat × Bytes)
  | [] => none
  | b :: rest =>
    if b < 0x80 then some (b.toNat, rest)
    else
      let width := b.toNat - 0x80
      let n := Bytes.toNatBig (rest.take width)
      let shortest := if n < 0x80 then 0 else (n.log2 + 8) / 8
      if width = 0 ∨ 4 < width ∨ rest.length < width ∨ width ≠ shortest then none
      else some (n, rest.drop width)

/-- Reads any element: its tag and its contents. -/
def any : Reader (UInt8 × Bytes) := fun b =>
  match b with
  | [] => none
  | tag :: rest =>
    match length? rest with
    | some (n, rest) =>
      if rest.length < n then none else some ((tag, rest.take n), rest.drop n)
    | none => none

/-- Reads an element with a given tag; the answer is its contents. -/
def element (tag : UInt8) : Reader Bytes := do
  let (t, contents) ← any
  if t = tag then pure contents else failure

/-- What a reader makes of the whole of a byte string. -/
def whole (reader : Reader α) (b : Bytes) : Option α :=
  match reader b with
  | some (a, []) => some a
  | _ => none

/-- Reads a sequence and all that it holds. -/
def sequence (inner : Reader α) : Reader α := do
  let contents ← element sequenceTag
  match whole inner contents with
  | some a => pure a
  | none => failure

/-- The number that the contents of an element spell. -/
def number? : Bytes → Option Nat
  | [] => none
  | [b] => if b < 0x80 then some b.toNat else none
  | b :: c :: rest =>
    if 0x80 ≤ b ∨ (b = 0 ∧ c < 0x80) then none else some (Bytes.toNatBig (b :: c :: rest))

/-- Reads a number. -/
def number : Reader Nat := do
  match number? (← element integerTag) with
  | some n => pure n
  | none => failure

/-- Reads a bit string of whole bytes. -/
def bitString : Reader Bytes := do
  match ← element bitStringTag with
  | 0 :: contents => pure contents
  | _ => failure

/-- What is left. -/
def rest : Reader Bytes := get

end Metering.Der
