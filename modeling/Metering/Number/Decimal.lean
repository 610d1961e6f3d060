import Metering.Number.Binary64
import Metering.Number.Digits

/-!
Decimal numbers: a sign, a coefficient and a power of ten.

A decimal is rounded to the nearest binary number from its exact value. The power may be
astronomic (`1e-99999999999`), so magnitudes beyond every finite number become infinity, and
magnitudes below half of the smallest one become zero, before any power is taken.
-/
namespace Metering

/-- The number `coefficient · 10^exponent`, with a sign of its own since zero has one too. -/
structure Decimal where
  negative : Bool
  coefficient : Nat
  exponent : Int
deriving DecidableEq, Repr

namespace Decimal

/-- The place of the first digit: the magnitude lies below ten to this power. -/
def top (d : Decimal) : Int := d.exponent + Digits.width d.coefficient

/-- The binary number nearest to a decimal, ties to the even one. -/
def toBinary64 (d : Decimal) : Binary64 :=
  if d.coefficient = 0 ∨ d.top < -330 then .ofRank d.negative 0
  else if 310 < d.top then .ofRank d.negative Binary64.infinityRank
  else .ofQuotient d.negative (d.coefficient * Nat.pow 10 d.exponent.toNat)
      (Nat.pow 10 (-d.exponent).toNat)

/-- A decimal from its digits before and after the point and its written power of ten. -/
def ofParts (negative : Bool) (whole fraction : List Char) (power : Int) : Decimal :=
  ⟨negative, Digits.ofDigits (whole ++ fraction), power - fraction.length⟩

end Decimal
end Metering
