import Mathlib.Algebra.Ring.Nat
import Metering.Number.Decimal

/-!
Rounding is to the nearest rank, and there is only one.

The numbers that round to a rank fill the interval between the half-way points to its neighbours,
and the two ends belong to it if the rank is even (`Nearest`). Neighbouring intervals meet in one
point, which belongs to exactly one of them. So whatever lies in the interval of a rank is rounded
to that rank, however it is written as a quotient.

Results:
1. `Nearest.unique`: a quotient lies in the interval of one rank only.
2. `nearest_uncapped`: what it is rounded to, before the cap at infinity, is that rank.
3. `Decimal.toBinary64_shift`: zeros may be moved from the coefficient to the power of ten.
-/
namespace Metering

namespace Binary64

/-- Twice the quotient `n / d` lies between the half-way points around the value of a rank. -/
structure Nearest (r n d : Nat) : Prop where
  low : (units (r - 1) + units r) * d ≤ 2 * n
  high : 2 * n ≤ (units r + units (r + 1)) * d
  even_of_low : (units (r - 1) + units r) * d = 2 * n → r % 2 = 0
  even_of_high : 2 * n = (units r + units (r + 1)) * d → r % 2 = 0

/-- A whole number in units. -/
def inUnits (n : Nat) : Nat := n * Nat.pow 2 1074

theorem inUnits_eq (n : Nat) : inUnits n = n * inUnits 1 := by
  simp only [inUnits, Nat.one_mul]

theorem ofQuotient_eq (s : Bool) (n d : Nat) :
    ofQuotient s n d = ofRank s (nearestRank (inUnits n) d) := rfl

/-! ## 1. Intervals -/

theorem units_lt_units {r s : Nat} (h : r < s) : units r < units s := by
  induction h with
  | refl => exact units_lt_units_succ r
  | step _ ih => exact Nat.lt_trans ih (units_lt_units_succ _)

theorem units_le_units {r s : Nat} (h : r ≤ s) : units r ≤ units s := by
  rcases Nat.lt_or_eq_of_le h with hlt | rfl
  · exact Nat.le_of_lt (units_lt_units hlt)
  · exact Nat.le_refl _

/-- Two intervals in order meet in at most one point, an end of both. -/
theorem Nearest.not_lt {r s n d : Nat} (hd : 0 < d) (hr : Nearest r n d) (hs : Nearest s n d) :
    ¬ r < s := by
  intro hlt
  have hbelow : units (r + 1) ≤ units s := units_le_units hlt
  have hprev : units r ≤ units (s - 1) := units_le_units (by omega)
  have hsum : units r + units (r + 1) ≤ units (s - 1) + units s := Nat.add_le_add hprev hbelow
  have hmul := Nat.mul_le_mul_right d hsum
  have hhigh := hr.high
  have hlow := hs.low
  have heven := hr.even_of_high (by omega)
  have heven' := hs.even_of_low (by omega)
  -- Equal ends make the ranks neighbours, and neighbours are not both even.
  have hends : units r + units (r + 1) = units (s - 1) + units s :=
    Nat.eq_of_mul_eq_mul_right hd (by omega)
  have hnext : s = r + 1 := by
    rcases Nat.lt_or_ge (r + 1) s with hfar | hnear
    · have := units_lt_units hfar
      omega
    · omega
  omega

theorem Nearest.unique {r s n d : Nat} (hd : 0 < d) (hr : Nearest r n d) (hs : Nearest s n d) :
    r = s := by
  rcases Nat.lt_trichotomy r s with hlt | heq | hgt
  · exact absurd hlt (hr.not_lt hd hs)
  · exact heq
  · exact absurd hgt (hs.not_lt hd hr)

/-! ## 2. Rounding -/

/-- The steps of a run of ranks are all of one width. -/
theorem units_run {e q : Nat} (hq : q ≤ 0x20000000000000) (he : e = 0 ∨ 0x10000000000000 ≤ q) :
    units (e * 0x10000000000000 + q) = q * 2 ^ e := by
  unfold units
  by_cases hsmall : q < 0x10000000000000
  · obtain rfl : e = 0 := by omega
    simp [hsmall]
  · rw [if_neg (by omega)]
    show _ * 2 ^ _ = _
    by_cases htop : q = 0x20000000000000
    · have hmod : (e * 0x10000000000000 + q) % 0x10000000000000 = 0 := by omega
      have hdiv : (e * 0x10000000000000 + q) / 0x10000000000000 - 1 = e + 1 := by omega
      rw [hmod, hdiv, htop, Nat.pow_succ]
      omega
    · have hmod : (e * 0x10000000000000 + q) % 0x10000000000000 = q - 0x10000000000000 := by omega
      have hdiv : (e * 0x10000000000000 + q) / 0x10000000000000 - 1 = e := by omega
      rw [hmod, hdiv, Nat.add_sub_cancel' (by omega)]

/-- A rounded quotient is off by half a step at most, and by exactly half only if it is even. -/
theorem roundHalfEven_cases {n w : Nat} (hw : 0 < w) :
    let q := roundHalfEven n w
    n / w ≤ q ∧ q ≤ n / w + 1 ∧ 2 * q * w ≤ 2 * n + w ∧ 2 * n ≤ 2 * q * w + w ∧
      (2 * q * w = 2 * n + w ∨ 2 * n = 2 * q * w + w → q % 2 = 0) := by
  have hn : n = w * (n / w) + n % w := (Nat.div_add_mod n w).symm
  have hmod := Nat.mod_lt n hw
  intro q
  have hq : q = roundHalfEven n w := rfl
  unfold roundHalfEven at hq
  have hmul : 2 * (n / w) * w = 2 * (w * (n / w)) := by
    rw [Nat.mul_assoc, Nat.mul_comm w]
  have hmul' : 2 * (n / w + 1) * w = 2 * (w * (n / w)) + 2 * w := by
    rw [Nat.mul_assoc, Nat.add_mul, Nat.mul_comm w]
    omega
  simp only [] at hq
  split at hq
  next hlt =>
    rw [hq, hmul]
    omega
  next hge =>
    split at hq
    next hgt =>
      rw [hq, hmul']
      omega
    next hle =>
      -- A tie: an odd whole part is rounded up, an even one down.
      rcases Nat.mod_two_eq_zero_or_one (n / w) with heven | hodd
      · rw [hq, heven, Nat.add_zero, hmul]
        omega
      · rw [hq, hodd, hmul']
        omega

/-- After halving, a quotient has at most 53 binary digits, and exactly 53 if it was halved. -/
theorem excess_spec (n d : Nat) :
    let q := n / (d * 2 ^ excess n d)
    q < 0x20000000000000 ∧ (excess n d = 0 ∨ 0x10000000000000 ≤ q) := by
  intro q
  have hq : q = n / d / 2 ^ excess n d := (Nat.div_div_eq_div_mul _ _ _).symm
  have hlog : n / d < 2 ^ ((n / d).log2 + 1) := Nat.lt_log2_self
  have hlt : n / d < 2 ^ (53 + excess n d) :=
    Nat.lt_of_lt_of_le hlog (Nat.pow_le_pow_right (by decide) (by unfold excess; omega))
  constructor
  · rw [hq, Nat.div_lt_iff_lt_mul (Nat.two_pow_pos _)]
    rwa [Nat.pow_add] at hlt
  · by_cases hzero : excess n d = 0
    · exact .inl hzero
    · refine .inr ?_
      have hpos : n / d ≠ 0 := by
        intro h
        rw [excess, h] at hzero
        exact hzero rfl
      have hle : 2 ^ (52 + excess n d) ≤ n / d := by
        have hself := Nat.log2_self_le hpos
        have hexp : 52 + excess n d = (n / d).log2 := by
          unfold excess at hzero ⊢
          omega
        rwa [hexp]
      rw [hq, Nat.le_div_iff_mul_le (Nat.two_pow_pos _)]
      rwa [Nat.pow_add] at hle

/-- The next rank is one step on, or more where the next run begins. -/
theorem units_next {e q : Nat} (hq : q ≤ 0x20000000000000)
    (he : e = 0 ∨ 0x10000000000000 ≤ q) :
    (q + 1) * 2 ^ e ≤ units (e * 0x10000000000000 + q + 1) ∧
      (units (e * 0x10000000000000 + q + 1) = (q + 1) * 2 ^ e ∨ q % 2 = 0) := by
  by_cases htop : q = 0x20000000000000
  · have h := units_run (e := e + 1) (q := 0x10000000000001) (by decide) (.inr (by decide))
    have hrank : e * 0x10000000000000 + q + 1 = (e + 1) * 0x10000000000000 + 0x10000000000001 := by
      omega
    rw [hrank, h, Nat.pow_succ, htop]
    have := Nat.two_pow_pos e
    omega
  · have h : units (e * 0x10000000000000 + (q + 1)) = (q + 1) * 2 ^ e :=
      units_run (by omega) (by omega)
    rw [Nat.add_assoc, h]
    exact ⟨Nat.le_refl _, .inl rfl⟩

/-- The rank before is one step back, or less where its run ends and at zero. -/
theorem units_previous {e q : Nat} (hq : q ≤ 0x20000000000000)
    (he : e = 0 ∨ 0x10000000000000 ≤ q) :
    (∃ p, q = p + 1 ∧ units (e * 0x10000000000000 + q - 1) = p * 2 ^ e) ∨
      ((q = 0 ∨ e ≠ 0 ∧ q = 0x10000000000000) ∧
        units (e * 0x10000000000000 + q - 1) ≤ q * 2 ^ e) := by
  have hself : units (e * 0x10000000000000 + q) = q * 2 ^ e := units_run hq he
  cases q with
  | zero => exact .inr ⟨.inl rfl, hself ▸ units_le_units (Nat.sub_le _ _)⟩
  | succ p =>
    by_cases hrun : e = 0 ∨ 0x10000000000000 ≤ p
    · have h : units (e * 0x10000000000000 + p) = p * 2 ^ e := units_run (by omega) hrun
      refine .inl ⟨p, rfl, ?_⟩
      rw [← Nat.add_assoc, Nat.add_sub_cancel, h]
    · exact .inr ⟨.inr (by omega), hself ▸ units_le_units (Nat.sub_le _ _)⟩

/-- The rank before it is capped at infinity is a nearest one. -/
theorem nearest_uncapped (n : Nat) {d : Nat} (hd : 0 < d) :
    Nearest (excess n d * 0x10000000000000 + roundHalfEven n (d * Nat.pow 2 (excess n d))) n d := by
  obtain ⟨hlt, hrun⟩ := excess_spec n d
  show Nearest (_ + roundHalfEven n (d * 2 ^ excess n d)) n d
  generalize excess n d = e at hlt hrun
  have hw : 0 < d * 2 ^ e := Nat.mul_pos hd (Nat.two_pow_pos e)
  obtain ⟨hle, hle', hdown, hup, heven⟩ := roundHalfEven_cases (n := n) hw
  have hfloor : n / (d * 2 ^ e) * (d * 2 ^ e) ≤ n := Nat.div_mul_le_self n _
  generalize roundHalfEven n (d * 2 ^ e) = q at hle hle' hdown hup heven
  have hself : units (e * 0x10000000000000 + q) = q * 2 ^ e := units_run (by omega) (by omega)
  have hparity : (e * 0x10000000000000 + q) % 2 = q % 2 := by omega
  have hassoc : ∀ a : Nat, a * 2 ^ e * d = a * (d * 2 ^ e) := fun a => by
    rw [Nat.mul_assoc, Nat.mul_comm (2 ^ e)]
  have hstep : ∀ a : Nat, (a + 1) * (d * 2 ^ e) = a * (d * 2 ^ e) + d * 2 ^ e := fun a =>
    Nat.succ_mul a _
  rw [Nat.mul_assoc] at hdown hup heven
  obtain ⟨hnext, hnextEq⟩ := units_next (e := e) (q := q) (by omega) (by omega)
  have hhigh : (q * 2 ^ e + (q + 1) * 2 ^ e) * d = 2 * (q * (d * 2 ^ e)) + d * 2 ^ e := by
    rw [Nat.add_mul, hassoc, hassoc, hstep]
    omega
  have hhigh' : (q * 2 ^ e + (q + 1) * 2 ^ e) * d ≤
      (q * 2 ^ e + units (e * 0x10000000000000 + q + 1)) * d :=
    Nat.mul_le_mul_right d (Nat.add_le_add_left hnext _)
  -- The half-way point below, where the rank before is a whole step back and where it is not.
  have hlow : (∃ p, q = p + 1 ∧
      (units (e * 0x10000000000000 + q - 1) + q * 2 ^ e) * d + d * 2 ^ e =
        2 * (q * (d * 2 ^ e))) ∨
      (q % 2 = 0 ∧ (units (e * 0x10000000000000 + q - 1) + q * 2 ^ e) * d ≤ 2 * n) := by
    rcases units_previous (e := e) (q := q) (by omega) (by omega) with ⟨p, rfl, hp⟩ | ⟨hends, hp⟩
    · refine .inl ⟨p, rfl, ?_⟩
      rw [hp, Nat.add_mul, hassoc, hassoc, hstep]
      omega
    · refine .inr ⟨by omega, ?_⟩
      have hmul := Nat.mul_le_mul_right d (Nat.add_le_add_right hp (q * 2 ^ e))
      rw [Nat.add_mul (q * 2 ^ e), hassoc] at hmul
      have hbound : q * (d * 2 ^ e) ≤ n := by
        rcases hends with rfl | ⟨he, rfl⟩
        · omega
        · exact Nat.le_trans (Nat.mul_le_mul_right _ (hrun.resolve_left he)) hfloor
      omega
  refine ⟨?_, ?_, ?_, ?_⟩
  · rw [hself]
    rcases hlow with ⟨p, -, hp⟩ | ⟨-, hp⟩ <;> omega
  · rw [hself]
    omega
  · rw [hself, hparity]
    rcases hlow with ⟨p, -, hp⟩ | ⟨h, -⟩
    · omega
    · exact fun _ => h
  · rw [hself, hparity]
    rcases hnextEq with heq | h
    · rw [heq]
      omega
    · exact fun _ => h

/-! ## 3. Quotients written in other ways -/

theorem roundHalfEven_mul (n d : Nat) {k : Nat} (hk : 0 < k) :
    roundHalfEven (n * k) (d * k) = roundHalfEven n d := by
  have hdiv : n * k / (d * k) = n / d := Nat.mul_div_mul_right n d hk
  have hmod : 2 * (n * k % (d * k)) = 2 * (n % d) * k := by
    rw [Nat.mul_mod_mul_right, Nat.mul_assoc]
  unfold roundHalfEven
  simp only [hdiv, hmod, Nat.mul_lt_mul_right hk]

theorem nearestRank_mul (n d : Nat) {k : Nat} (hk : 0 < k) :
    nearestRank (n * k) (d * k) = nearestRank n d := by
  have hexcess : excess (n * k) (d * k) = excess n d := by
    rw [excess, Nat.mul_div_mul_right n d hk, excess]
  unfold nearestRank
  simp only [hexcess, Nat.mul_right_comm d k, roundHalfEven_mul _ _ hk]

end Binary64

namespace Digits

theorem width_le_iff {n k : Nat} (hk : 0 < k) : width n ≤ k ↔ n < 10 ^ k :=
  Nat.length_toDigits_le_iff (by decide) hk

theorem width_pos (n : Nat) : 0 < width n := Nat.length_toDigits_pos

theorem lt_pow_width (n : Nat) : n < 10 ^ width n := (width_le_iff (width_pos n)).mp (Nat.le_refl _)

theorem pow_le_of_lt_width {n k : Nat} (hk : 0 < k) (h : k < width n) : 10 ^ k ≤ n := by
  rcases Nat.lt_or_ge n (10 ^ k) with hlt | hge
  · exact absurd ((width_le_iff hk).mpr hlt) (Nat.not_le_of_lt h)
  · exact hge

/-- The first digit of a number that is not zero counts for something. -/
theorem pow_width_le {n : Nat} (hn : n ≠ 0) : 10 ^ (width n - 1) ≤ n := by
  by_cases h : width n = 1
  · rw [h]
    exact Nat.one_le_iff_ne_zero.mpr hn
  · have := width_pos n
    exact pow_le_of_lt_width (by omega) (by omega)

theorem toDigits_mul_ten {n : Nat} (hn : n ≠ 0) : toDigits (n * 10) = toDigits n ++ ['0'] := by
  have h := Nat.toDigits_append_toDigits (b := 10) (n := n) (d := 0) (by decide)
    (Nat.pos_of_ne_zero hn) (by decide)
  rw [Nat.toDigits_zero, Nat.add_zero, Nat.mul_comm] at h
  exact h.symm

theorem width_mul_ten {n : Nat} (hn : n ≠ 0) : width (n * 10) = width n + 1 := by
  rw [width, toDigits_mul_ten hn, List.length_append]
  rfl

end Digits

namespace Decimal

open Binary64

theorem top_mul_ten (s : Bool) {c : Nat} (hc : c ≠ 0) (e : Int) :
    top ⟨s, c * 10, e⟩ = top ⟨s, c, e + 1⟩ := by
  simp only [top, Digits.width_mul_ten hc]
  omega

/-- A zero at the end of the coefficient counts for one in the power of ten. -/
theorem toBinary64_mul_ten (s : Bool) (c : Nat) (e : Int) :
    toBinary64 ⟨s, c * 10, e⟩ = toBinary64 ⟨s, c, e + 1⟩ := by
  by_cases hc : c = 0
  · simp [toBinary64, hc]
  have hc' : c * 10 ≠ 0 := by omega
  unfold toBinary64
  rw [top_mul_ten s hc]
  simp only [hc, hc', false_or]
  have hq : ofQuotient s (c * 10 * Nat.pow 10 e.toNat) (Nat.pow 10 (-e).toNat) =
      ofQuotient s (c * Nat.pow 10 (e + 1).toNat) (Nat.pow 10 (-(e + 1)).toNat) := by
    by_cases he : 0 ≤ e
    · have hup : (e + 1).toNat = e.toNat + 1 := by omega
      have hdown : (-(e + 1)).toNat = (-e).toNat := by omega
      rw [hup, hdown, show Nat.pow 10 (e.toNat + 1) = Nat.pow 10 e.toNat * 10 from rfl,
        Nat.mul_right_comm, Nat.mul_assoc]
    · have hup : (e + 1).toNat = e.toNat := by omega
      have hdown : (-e).toNat = (-(e + 1)).toNat + 1 := by omega
      rw [hup, hdown,
        show Nat.pow 10 ((-(e + 1)).toNat + 1) = Nat.pow 10 (-(e + 1)).toNat * 10 from rfl]
      unfold ofQuotient
      rw [Nat.mul_right_comm c, Nat.mul_right_comm _ 10, nearestRank_mul _ _ (by decide)]
  rw [hq]

/-- Zeros may be moved from the end of the coefficient to the power of ten. -/
theorem toBinary64_shift (s : Bool) (c k : Nat) (e : Int) :
    toBinary64 ⟨s, c * 10 ^ k, e⟩ = toBinary64 ⟨s, c, e + k⟩ := by
  induction k generalizing e with
  | zero => simp
  | succ k ih =>
    rw [Nat.pow_succ, ← Nat.mul_assoc, toBinary64_mul_ten, ih]
    congr 2
    omega

end Decimal
end Metering
