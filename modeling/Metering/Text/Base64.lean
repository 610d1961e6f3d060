import Metering.Bytes.Basic

/-!
Base64 text with its padding.

Four digits carry three bytes. The last group may be filled up with one or two equals signs, and
the bits that it does not need must be zero, so every byte string has one form.
-/
namespace Metering.Base64

/-- The value of a digit. -/
def value? (c : UInt8) : Option Nat :=
  let n := c.toNat
  if 65 ≤ n ∧ n ≤ 90 then some (n - 65)
  else if 97 ≤ n ∧ n ≤ 122 then some (n - 97 + 26)
  else if 48 ≤ n ∧ n ≤ 57 then some (n - 48 + 52)
  else if n = 43 then some 62
  else if n = 47 then some 63
  else none

/-- The sign that fills up the last group. -/
def fill : UInt8 := 0x3d

/-- The bytes of a group of digits, two of them or more. -/
def group? (digits : List UInt8) : Option Bytes :=
  match digits.mapM value? with
  | some [a, b, c, d] => some (Bytes.ofNatBig 3 (((a * 64 + b) * 64 + c) * 64 + d))
  | some [a, b, c] =>
    if c % 4 = 0 then some (Bytes.ofNatBig 2 ((a * 64 + b) * 16 + c / 4)) else none
  | some [a, b] => if b % 16 = 0 then some [UInt8.ofNat (a * 4 + b / 16)] else none
  | _ => none

/-- The bytes that a text carries. -/
def decode? : List UInt8 → Option Bytes
  | [] => some []
  | [a, b, c, d] =>
    if d = fill then
      if c = fill then group? [a, b] else group? [a, b, c]
    else group? [a, b, c, d]
  | a :: b :: c :: d :: rest => do
    let head ← group? [a, b, c, d]
    let tail ← decode? rest
    return head ++ tail
  | _ => none

end Metering.Base64
