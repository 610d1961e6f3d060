import Metering.Proofs.NearestRank

/-!
Decimals that have a nearest finite number, and those that are too great.

Above the greatest finite number there is one more rank, that of infinity, a step higher. A decimal
that is half of this step above the greatest finite number, or more, is rounded to infinity. All
others are rounded to the finite number whose interval they lie in, however small they are and
whatever their power of ten is, which may be much too great to be taken.

Results:
1. `infinityRank_le_iff`: where the interval of infinity begins.
2. `Decimal.toBinary64_eq`: every decimal is rounded to the rank of its interval, or to infinity;
   `Decimal.toBinary64_of_liesAt`, `Decimal.top_of_liesAt`: those at a finite rank.
3. `Decimal.isFinite_toBinary64_iff`, `Decimal.roundsTo_iff`: which decimals have a nearest finite
   number, and what it is.
-/
namespace Metering

/-! ## 1. The interval of infinity -/

namespace Binary64

/-- Half-way between the greatest finite number and the power of two above it. -/
def overflowLimit : Nat := 2 ^ 1024 - 2 ^ 970

theorem units_limit :
    units (infinityRank - 1) + units infinityRank = 2 * inUnits overflowLimit := by decide +kernel

theorem inUnits_le_inUnits {m n : Nat} : inUnits m ≤ inUnits n ↔ m ≤ n := by
  have hunit : 0 < inUnits 1 := by decide +kernel
  rw [inUnits_eq m, inUnits_eq n]
  exact Nat.mul_le_mul_right_iff hunit

theorem inUnits_mul (m n : Nat) : inUnits m * n = inUnits (m * n) := Nat.mul_right_comm ..

/-- Quotients from the limit on lie in the interval of infinity, or of what would come after it. -/
theorem infinityRank_le_iff {r n d : Nat} (hd : 0 < d) (h : Nearest r (inUnits n) d) :
    infinityRank ≤ r ↔ overflowLimit * d ≤ n := by
  have hlimit : (units (infinityRank - 1) + units infinityRank) * d =
      2 * inUnits (overflowLimit * d) := by
    rw [units_limit, Nat.mul_assoc, inUnits_mul]
  constructor
  · intro hr
    have hsum : units (infinityRank - 1) + units infinityRank ≤ units (r - 1) + units r :=
      Nat.add_le_add (units_le_units (Nat.sub_le_sub_right hr 1)) (units_le_units hr)
    have hlow := Nat.le_trans (Nat.mul_le_mul_right d hsum) h.low
    rw [hlimit] at hlow
    exact inUnits_le_inUnits.mp (Nat.le_of_mul_le_mul_left hlow (by decide))
  · intro hn
    refine Nat.le_of_not_lt fun hr => ?_
    have hlow : (units (infinityRank - 1) + units infinityRank) * d ≤ 2 * inUnits n := by
      rw [hlimit]
      exact Nat.mul_le_mul_left 2 (inUnits_le_inUnits.mpr hn)
    rcases Nat.lt_or_eq_of_le (Nat.le_sub_one_of_lt hr) with hlt | rfl
    · have hsum : units r + units (r + 1) < units (infinityRank - 1) + units infinityRank :=
        Nat.add_lt_add (units_lt_units hlt) (units_lt_units (Nat.add_lt_of_lt_sub hlt))
      have hmul := Nat.mul_lt_mul_of_pos_right hsum hd
      exact absurd h.high (Nat.not_le_of_lt (Nat.lt_of_lt_of_le hmul hlow))
    · -- The half-way point does not belong to the greatest finite rank, which is odd.
      have hnext : infinityRank - 1 + 1 = infinityRank := by decide
      have hhigh := h.high
      have heven := h.even_of_high
      rw [hnext] at hhigh heven
      exact absurd (heven (Nat.le_antisymm hhigh hlow)) (by decide)

/-- Quotients up to half of the smallest number lie in the interval of zero. -/
theorem nearest_zero {n d : Nat} (h : 2 * n ≤ d) : Nearest 0 n d where
  low := by
    show 0 * d ≤ 2 * n
    rw [Nat.zero_mul]
    exact Nat.zero_le _
  high := by
    show 2 * n ≤ 1 * d
    rwa [Nat.one_mul]
  even_of_low := fun _ => rfl
  even_of_high := fun _ => rfl

end Binary64

/-! ## 2. Rounding -/

namespace Decimal

open Binary64

/-- A decimal lies in the interval of a rank. -/
def LiesAt (d : Decimal) (r : Nat) : Prop :=
  Nearest r (inUnits (d.coefficient * 10 ^ d.exponent.toNat)) (10 ^ (-d.exponent).toNat)

/-- A finite number is the nearest one to a decimal, and of two equally near ones the even one. It
has the sign of the decimal, also if it is zero. -/
structure RoundsTo (d : Decimal) (x : Binary64) : Prop where
  finite : x.isFinite = true
  negative : x.negative = d.negative
  nearest : d.LiesAt x.rank

/-- A decimal is too great for any finite number. -/
def Overflows (d : Decimal) : Prop :=
  overflowLimit * 10 ^ (-d.exponent).toNat ≤ d.coefficient * 10 ^ d.exponent.toNat

instance (d : Decimal) : Decidable d.Overflows := inferInstanceAs (Decidable (_ ≤ _))

/-- A decimal lies below the power of ten that its first digit does not reach. -/
theorem mul_pow_le_of_place_le {c a : Nat} {e : Int} (h : e + Digits.width c ≤ -(a : Int)) :
    c * 10 ^ e.toNat * 10 ^ a ≤ 10 ^ (-e).toNat := by
  have hcoef : c * 10 ^ e.toNat * 10 ^ a ≤ 10 ^ Digits.width c * 10 ^ e.toNat * 10 ^ a :=
    Nat.mul_le_mul_right _ (Nat.mul_le_mul_right _ (Nat.le_of_lt (Digits.lt_pow_width c)))
  refine Nat.le_trans hcoef ?_
  rw [← Nat.pow_add, ← Nat.pow_add]
  exact Nat.pow_le_pow_right (by decide) (by omega)

/-- A decimal that is not zero is no less than the power of ten of its first digit. -/
theorem pow_mul_le_of_lt_place {c b : Nat} (hc : c ≠ 0) {e : Int}
    (h : (b : Int) < e + Digits.width c) : 10 ^ b * 10 ^ (-e).toNat ≤ c * 10 ^ e.toNat := by
  have hwidth := Digits.width_pos c
  have hcoef : 10 ^ (Digits.width c - 1) * 10 ^ e.toNat ≤ c * 10 ^ e.toNat :=
    Nat.mul_le_mul_right _ (Digits.pow_width_le hc)
  refine Nat.le_trans ?_ hcoef
  rw [← Nat.pow_add, ← Nat.pow_add]
  exact Nat.pow_le_pow_right (by decide) (by omega)

variable {d : Decimal} {r : Nat}

theorem LiesAt.unique {s : Nat} (hr : d.LiesAt r) (hs : d.LiesAt s) : r = s :=
  Nearest.unique (Nat.pow_pos (by decide)) hr hs

theorem LiesAt.infinityRank_le_iff (h : d.LiesAt r) : infinityRank ≤ r ↔ d.Overflows :=
  Binary64.infinityRank_le_iff (Nat.pow_pos (by decide)) h

/-- A decimal whose first digit is far behind the point, or that has none, lies at zero. -/
theorem liesAt_zero (h : d.coefficient = 0 ∨ d.top < -330) : d.LiesAt 0 := by
  have hunit : 2 * inUnits 1 < 10 ^ 331 := by decide +kernel
  refine nearest_zero ?_
  rw [inUnits_eq, Nat.mul_left_comm]
  rcases h with hzero | htop
  · rw [hzero, Nat.zero_mul, Nat.zero_mul]
    exact Nat.zero_le _
  · have hplace : d.exponent + Digits.width d.coefficient ≤ -((331 : Nat) : Int) :=
      Int.le_sub_one_of_lt htop
    exact Nat.le_trans (Nat.mul_le_mul_left _ (Nat.le_of_lt hunit))
      (mul_pow_le_of_place_le hplace)

/-- A decimal whose first digit is far in front of the point is too great. -/
theorem overflows_of_top (hc : d.coefficient ≠ 0) (h : 310 < d.top) : d.Overflows := by
  have hlimit : overflowLimit ≤ 10 ^ 310 := by decide +kernel
  exact Nat.le_trans (Nat.mul_le_mul_right _ hlimit) (pow_mul_le_of_lt_place hc h)

/-- A decimal is rounded to the rank that it lies at, or to infinity if that is beyond it. -/
theorem toBinary64_eq (d : Decimal) :
    ∃ r, d.LiesAt r ∧ d.toBinary64 = ofRank d.negative (min infinityRank r) := by
  have hnearest := nearest_uncapped (inUnits (d.coefficient * 10 ^ d.exponent.toNat))
    (Nat.pow_pos (n := (-d.exponent).toNat) (by decide : 0 < 10))
  unfold toBinary64
  split
  next hsmall => exact ⟨0, liesAt_zero hsmall, rfl⟩
  next hdigit =>
    have hc : d.coefficient ≠ 0 := fun hzero => hdigit (.inl hzero)
    refine ⟨_, hnearest, ?_⟩
    split
    next htop =>
      have hle := (LiesAt.infinityRank_le_iff hnearest).mpr (overflows_of_top hc htop)
      rw [Nat.min_eq_left hle]
    next => rfl

/-- A decimal at a finite rank is rounded to that rank. -/
theorem toBinary64_of_liesAt (h : d.LiesAt r) (hinf : r < infinityRank) :
    d.toBinary64 = ofRank d.negative r := by
  obtain ⟨s, hs, hd⟩ := d.toBinary64_eq
  rw [hd, h.unique hs, Nat.min_eq_right (Nat.le_of_lt (h.unique hs ▸ hinf))]

/-- A decimal at a finite rank that is not zero has its first digit within the places that are
looked at. -/
theorem top_of_liesAt (h : d.LiesAt r) (hr : 0 < r) (hinf : r < infinityRank) :
    d.coefficient ≠ 0 ∧ -330 ≤ d.top ∧ d.top ≤ 310 := by
  have hzero : ¬ (d.coefficient = 0 ∨ d.top < -330) := fun hsmall =>
    Nat.ne_of_gt hr (h.unique (liesAt_zero hsmall))
  rw [not_or, Int.not_lt] at hzero
  refine ⟨hzero.1, hzero.2, Int.not_lt.mp fun htop => ?_⟩
  exact absurd (h.infinityRank_le_iff.mpr (overflows_of_top hzero.1 htop)) (Nat.not_le_of_lt hinf)

/-! ## 3. Finite numbers -/

theorem rank_toBinary64 (hd : d.LiesAt r) : d.toBinary64.rank = min infinityRank r := by
  obtain ⟨s, hs, hd'⟩ := d.toBinary64_eq
  rw [hd', hd.unique hs, rank_ofRank]
  exact Nat.lt_of_le_of_lt (Nat.min_le_left _ _) (by decide)

theorem negative_toBinary64 (d : Decimal) : d.toBinary64.negative = d.negative := by
  obtain ⟨r, -, hd⟩ := d.toBinary64_eq
  rw [hd, negative_ofRank]
  exact Nat.lt_of_le_of_lt (Nat.min_le_left _ _) (by decide)

theorem isFinite_toBinary64_iff (d : Decimal) :
    d.toBinary64.isFinite = true ↔ ¬ d.Overflows := by
  obtain ⟨r, hr, -⟩ := d.toBinary64_eq
  rw [isFinite, decide_eq_true_eq, rank_toBinary64 hr, ← hr.infinityRank_le_iff, Nat.not_le]
  exact ⟨fun h => Nat.lt_of_not_le fun hle => Nat.lt_irrefl _ (Nat.min_eq_left hle ▸ h),
    fun h => Nat.lt_of_le_of_lt (Nat.min_le_right _ _) h⟩

/-- The nearest finite number to a decimal is the one that it is rounded to. -/
theorem roundsTo_iff {x : Binary64} : d.RoundsTo x ↔ ¬ d.Overflows ∧ d.toBinary64 = x := by
  constructor
  · intro h
    have hrank : x.rank < infinityRank := of_decide_eq_true h.finite
    refine ⟨fun hover => ?_, ?_⟩
    · exact absurd (h.nearest.infinityRank_le_iff.mpr hover) (Nat.not_le_of_lt hrank)
    · rw [← ofRank_rank d.toBinary64, rank_toBinary64 h.nearest, negative_toBinary64,
        Nat.min_eq_right (Nat.le_of_lt hrank), ← h.negative, ofRank_rank]
  · rintro ⟨hover, rfl⟩
    have hfinite := d.isFinite_toBinary64_iff.mpr hover
    obtain ⟨r, hr, -⟩ := d.toBinary64_eq
    refine ⟨hfinite, negative_toBinary64 d, ?_⟩
    have hlt : r < infinityRank := Nat.lt_of_not_le fun hle => hover (hr.infinityRank_le_iff.mp hle)
    rwa [rank_toBinary64 hr, Nat.min_eq_right (Nat.le_of_lt hlt)]

end Decimal
end Metering
