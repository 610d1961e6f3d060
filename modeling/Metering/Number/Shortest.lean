import Metering.Number.Decimal

/-!
The shortest decimal that reads back as a given binary number.

The decimals that round to the number of rank `r` fill the interval between the half-way points
to its neighbours; the ends belong to it when `r` is even (`within`). For one, two, … seventeen
digits the two neighbours of the number on that decimal grid are tried (`pick`). The first
grid with a hit wins, and of two hits the nearer one; a tie goes up or to the even digit, as the
style asks. Seventeen digits always suffice, and if they did not the exact expansion would be
written, so every result reads back.

`NumberStyle` turns the digits into text: positional for the powers of ten that it lists, else with
an exponent.
-/
namespace Metering.Shortest

open Binary64 (units)

/-- Which of two equally near shortest decimals is written. -/
inductive Tie
  | up
  | even
deriving DecidableEq, Repr

/-- A positive quotient of whole numbers. -/
structure Quotient where
  num : Nat
  den : Nat
deriving Repr

/-- The grid point `c · 10^g`, as a multiple of 2⁻¹⁰⁷⁵. -/
def gridPoint (c : Nat) (g : Int) : Quotient :=
  ⟨c * Nat.pow 10 g.toNat * Nat.pow 2 1075, Nat.pow 10 (-g).toNat⟩

/-- Whether a multiple of 2⁻¹⁰⁷⁵ rounds to rank `r`: it lies between the half-way points. -/
def within (r : Nat) (x : Quotient) : Bool :=
  let low := units (r - 1) + units r
  let high := units r + units (r + 1)
  if r % 2 = 0 then decide (low * x.den ≤ x.num ∧ x.num ≤ high * x.den)
  else decide (low * x.den < x.num ∧ x.num < high * x.den)

/-- The whole part of the value of rank `r` measured in steps of `10^g`. -/
def floorOn (r : Nat) (g : Int) : Nat :=
  units r * Nat.pow 10 (-g).toNat / (Nat.pow 10 g.toNat * Nat.pow 2 1074)

/-- The order of the distances from the value of rank `r` to the grid points below and above. -/
def compareSides (r : Nat) (g : Int) : Ordering :=
  let step := Nat.pow 10 g.toNat * Nat.pow 2 1074
  compare (2 * (units r * Nat.pow 10 (-g).toNat % step)) step

/-- The better of the two grid neighbours that read back, if one does. -/
def pick (tie : Tie) (r : Nat) (g : Int) : Option Nat :=
  let c := floorOn r g
  match within r (gridPoint c g), within r (gridPoint (c + 1) g) with
  | true, true =>
    match compareSides r g with
    | .lt => some c
    | .gt => some (c + 1)
    | .eq => match tie with
      | .up => some (c + 1)
      | .even => some (c + c % 2)
  | true, false => some c
  | false, true => some (c + 1)
  | false, false => none

/-- The power of ten just above the value of rank `r`. -/
def top (r : Nat) : Int :=
  let whole := units r / Nat.pow 2 1074
  if whole ≠ 0 then Digits.width whole
  else 1 - (Digits.width ((Nat.pow 2 1074 - 1) / units r) : Int)

/-- The digits and the power of the shortest decimal, over the grids still to try. -/
def search (tie : Tie) (r : Nat) : List Nat → Nat × Int
  | [] => (units r * Nat.pow 5 1074, -1074)
  | n :: more =>
    let g := top r - n
    match pick tie r g with
    | some c => (c, g)
    | none => search tie r more

/-- Takes the zeros off the end of a coefficient, as long as it has any. -/
def trim : Nat → Nat → Int → Nat × Int
  | 0, c, g => (c, g)
  | k + 1, c, g => if c % 10 = 0 ∧ c ≠ 0 then trim k (c / 10) (g + 1) else (c, g)

/-- The coefficient without trailing zeros, and the power of ten, of the shortest decimal. -/
def digits (tie : Tie) (r : Nat) : Nat × Int :=
  if r = 0 then (0, 0)
  else
    let found := search tie r (List.range' 1 17)
    trim (Digits.width found.1) found.1 found.2

end Metering.Shortest

namespace Metering

/-- How a binary number is written: which way ties go, whether a whole number keeps its `.0`,
and for which places of the first digit the point is written where it is. -/
structure NumberStyle where
  tie : Shortest.Tie
  keepPoint : Bool
  positional : Int → Bool

namespace NumberStyle

/-- The digits with the point `power` places to the right of their end, without exponent. -/
def placed (keepPoint : Bool) (ds : List Char) (power : Int) : List Char :=
  let whole := ds ++ List.replicate power.toNat '0'
  let after := (-power).toNat
  if after = 0 then whole ++ (if keepPoint then ['.', '0'] else [])
  else if after < ds.length then
    ds.take (ds.length - after) ++ '.' :: ds.drop (ds.length - after)
  else '0' :: '.' :: (List.replicate (after - ds.length) '0' ++ ds)

/-- One digit, the others after a point, and a signed exponent. -/
def scientific (ds : List Char) (exponent : Int) : List Char :=
  let tail := match ds.drop 1 with
    | [] => []
    | more => '.' :: more
  let sign := if exponent < 0 then '-' else '+'
  ds.take 1 ++ tail ++ 'e' :: sign :: Digits.toDigits exponent.natAbs

/-- The text of a finite number. -/
def finite (n : NumberStyle) (x : Binary64) : List Char :=
  let (c, power) := Shortest.digits n.tie x.rank
  let ds := Digits.toDigits c
  let exponent := power + ds.length - 1
  let body :=
    if n.positional exponent then placed n.keepPoint ds power else scientific ds exponent
  if x.negative then '-' :: body else body

end NumberStyle
end Metering
