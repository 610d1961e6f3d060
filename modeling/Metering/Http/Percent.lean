import Metering.Bytes.Hex

/-!
Percent signs in paths.

A percent sign and two hexadecimal digits stand for a byte. A percent sign that is not followed
by two digits stands for itself.
-/
namespace Metering.Percent

/-- The value of a hexadecimal digit that is a byte. -/
def digit? (b : UInt8) : Option Nat := Hex.value? (Char.ofNat b.toNat)

/-- The bytes that a part of a path stands for. -/
def decode : Bytes → Bytes
  | 0x25 :: h :: l :: more =>
    match digit? h, digit? l with
    | some x, some y => UInt8.ofNat (16 * x + y) :: decode more
    | _, _ => 0x25 :: decode (h :: l :: more)
  | b :: rest => b :: decode rest
  | [] => []
termination_by b => b.length

end Metering.Percent
