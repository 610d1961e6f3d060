/-!
Binary floating-point numbers of 64 bits.

A number is its bit pattern, so equality is bit for bit and everything is decidable. The sign
aside, the patterns up to infinity are in the order of their values: the `rank` of a number is
its place in that order, and `units` says how many times 2⁻¹⁰⁷⁴ the value of a rank is. Ranks
from `infinityRank` on belong to infinity and to the values that are no number.

A quotient is rounded to the nearest rank, and of two equally near ones to the even one
(`nearestRank`). Nothing here rounds twice.

Main statements: a number is its sign and its rank (`ofRank_rank`), and neighbouring ranks have
different values (`units_lt_units_succ`).
-/
namespace Metering

/-- A 64-bit floating-point number, by its bit pattern. -/
structure Binary64 where
  bits : UInt64
deriving DecidableEq, Repr, Inhabited

namespace Binary64

/-- The rank of infinity: below it are the finite numbers. -/
def infinityRank : Nat := 0x7ff * 0x10000000000000

/-- The place of a number among the magnitudes. -/
def rank (x : Binary64) : Nat := x.bits.toNat % 0x8000000000000000

/-- The sign bit. -/
def negative (x : Binary64) : Bool := decide (0x8000000000000000 ≤ x.bits.toNat)

/-- The number of a given sign and rank. -/
def ofRank (negative : Bool) (rank : Nat) : Binary64 :=
  ⟨UInt64.ofNat (rank + if negative then 0x8000000000000000 else 0)⟩

def isFinite (x : Binary64) : Bool := decide (x.rank < infinityRank)

def isNaN (x : Binary64) : Bool := decide (infinityRank < x.rank)

def isInfinite (x : Binary64) : Bool := decide (x.rank = infinityRank)

def zero : Binary64 := ofRank false 0
def notANumber : Binary64 := ofRank false (infinityRank + 0x8000000000000)

/-- The same magnitude with the sign turned. -/
def negate (x : Binary64) : Binary64 := ofRank (!x.negative) x.rank

/-- Equality as numbers: the two zeros are equal, and what is no number equals nothing. -/
def sameValue (x y : Binary64) : Bool :=
  !x.isNaN && !y.isNaN && (x == y || (x.rank == 0 && y.rank == 0))

/-- The value of a rank as a multiple of 2⁻¹⁰⁷⁴. Up to 2⁵³ the steps are single; from there on
each run of 2⁵² ranks has steps twice as wide as the run before. -/
def units (r : Nat) : Nat :=
  if r < 0x10000000000000 then r else (0x10000000000000 + r % 0x10000000000000) * Nat.pow 2 (r / 0x10000000000000 - 1)

/-- A quotient rounded to the nearest whole number, a half to the even one. -/
def roundHalfEven (n d : Nat) : Nat :=
  let q := n / d
  let twice := 2 * (n % d)
  if twice < d then q else if d < twice then q + 1 else q + q % 2

/-- How far `n / d` must be halved to leave at most 53 binary digits. -/
def excess (n d : Nat) : Nat := (n / d).log2 - 52

/-- The rank nearest to `n / d` times 2⁻¹⁰⁷⁴; beyond the largest finite number it is infinity. -/
def nearestRank (n d : Nat) : Nat :=
  let e := excess n d
  min infinityRank (e * 0x10000000000000 + roundHalfEven n (d * Nat.pow 2 e))

/-- The number nearest to the quotient `n / d`, with the given sign. -/
def ofQuotient (negative : Bool) (n d : Nat) : Binary64 :=
  ofRank negative (nearestRank (n * Nat.pow 2 1074) d)

/-- The number nearest to a whole number. -/
def ofInt (i : Int) : Binary64 := ofQuotient (decide (i < 0)) i.natAbs 1

theorem ofRank_rank (x : Binary64) : ofRank x.negative x.rank = x := by
  have h := x.bits.toNat_lt
  have : x.rank + (if x.negative then 0x8000000000000000 else 0) = x.bits.toNat := by
    simp only [rank, negative, decide_eq_true_eq]
    split <;> omega
  rw [ofRank, this, UInt64.ofNat_toNat]

theorem rank_ofRank {s : Bool} {r : Nat} (h : r < 0x8000000000000000) : (ofRank s r).rank = r := by
  cases s <;> simp [ofRank, rank, UInt64.toNat_ofNat'] <;> omega

theorem negative_ofRank {s : Bool} {r : Nat} (h : r < 0x8000000000000000) : (ofRank s r).negative = s := by
  cases s <;> simp [ofRank, negative, UInt64.toNat_ofNat'] <;> omega

theorem units_lt_units_succ (r : Nat) : units r < units (r + 1) := by
  have hp : 0 < Nat.pow 2 (r / 0x10000000000000 - 1) := Nat.pow_pos (by decide)
  unfold units
  split
  · split
    · omega
    · have h1 : r + 1 = 0x10000000000000 := by omega
      rw [h1]; simp; omega
  · rename_i h
    rw [if_neg (by omega)]
    by_cases hm : r % 0x10000000000000 = 0x10000000000000 - 1
    · have hd : (r + 1) / 0x10000000000000 = r / 0x10000000000000 + 1 := by omega
      have hr : (r + 1) % 0x10000000000000 = 0 := by omega
      have hk : (r + 1) / 0x10000000000000 - 1 = (r / 0x10000000000000 - 1) + 1 := by omega
      have hs : Nat.pow 2 (r / 0x10000000000000 - 1 + 1) =
          Nat.pow 2 (r / 0x10000000000000 - 1) * 2 := rfl
      rw [hr, hk, hs, hm]
      generalize Nat.pow 2 (r / 0x10000000000000 - 1) = p at hp
      omega
    · have hd : (r + 1) / 0x10000000000000 = r / 0x10000000000000 := by omega
      have hr : (r + 1) % 0x10000000000000 = r % 0x10000000000000 + 1 := by omega
      rw [hr, hd]
      exact Nat.mul_lt_mul_of_pos_right (by omega) hp

end Binary64
end Metering
