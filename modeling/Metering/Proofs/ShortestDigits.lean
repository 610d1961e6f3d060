import Metering.Number.Shortest
import Metering.Proofs.DecimalRange

/-!
Shortest digits are read back as the number that they were written for.

A coefficient is taken only if its grid point lies in the interval of the rank, and the exact
expansion, which is what is left when no grid has a hit, lies there as well. Taking zeros off the
end changes the coefficient and the power but not the decimal.

Results:
1. `search_within`: what is found lies in the interval.
2. `digits_spec`: its digits spell the number, and the first of them has a bounded place.
-/
namespace Metering.Shortest

open Binary64 Decimal

/-! ## 1. Search -/

theorem gridPoint_num (c : Nat) (g : Int) :
    (gridPoint c g).num = 2 * inUnits (c * 10 ^ g.toNat) := by
  have h : Nat.pow 2 1075 = 2 * Nat.pow 2 1074 := by decide +kernel
  simp only [gridPoint, inUnits, h]
  generalize Nat.pow 2 1074 = p
  exact Nat.mul_left_comm _ 2 p

/-- A grid point is within the half-way points exactly if rounding goes to the rank. -/
theorem within_iff {r c : Nat} {g : Int} :
    within r (gridPoint c g) = true ↔
      Nearest r (inUnits (c * 10 ^ g.toNat)) (10 ^ (-g).toNat) := by
  have hden : (gridPoint c g).den = 10 ^ (-g).toNat := rfl
  unfold within
  simp only [gridPoint_num, hden]
  constructor
  · intro h
    split at h
    next heven =>
      obtain ⟨hlow, hhigh⟩ := of_decide_eq_true h
      exact ⟨hlow, hhigh, fun _ => heven, fun _ => heven⟩
    next =>
      obtain ⟨hlow, hhigh⟩ := of_decide_eq_true h
      exact ⟨Nat.le_of_lt hlow, Nat.le_of_lt hhigh, fun heq => by omega, fun heq => by omega⟩
  · rintro ⟨hlow, hhigh, hevenLow, hevenHigh⟩
    split
    next => exact decide_eq_true ⟨hlow, hhigh⟩
    next hodd =>
      refine decide_eq_true ⟨?_, ?_⟩
      · exact Nat.lt_of_le_of_ne hlow fun heq => hodd (hevenLow heq)
      · exact Nat.lt_of_le_of_ne hhigh fun heq => hodd (hevenHigh heq)

theorem pick_within {tie : Tie} {r c : Nat} {g : Int} (h : pick tie r g = some c) :
    within r (gridPoint c g) = true := by
  unfold pick at h
  dsimp only at h
  generalize floorOn r g = below at h
  generalize compareSides r g = order at h
  cases hbelow : within r (gridPoint below g) with
  | true =>
    cases habove : within r (gridPoint (below + 1) g) with
    | true =>
      rw [hbelow, habove] at h
      cases order with
      | lt => exact Option.some.inj h ▸ hbelow
      | gt => exact Option.some.inj h ▸ habove
      | eq =>
        cases tie with
        | up => exact Option.some.inj h ▸ habove
        | even =>
          have hc : below + below % 2 = c := Option.some.inj h
          rcases Nat.mod_two_eq_zero_or_one below with hmod | hmod
          · rw [hmod, Nat.add_zero] at hc
            exact hc ▸ hbelow
          · rw [hmod] at hc
            exact hc ▸ habove
    | false =>
      rw [hbelow, habove] at h
      exact Option.some.inj h ▸ hbelow
  | false =>
    cases habove : within r (gridPoint (below + 1) g) with
    | true =>
      rw [hbelow, habove] at h
      exact Option.some.inj h ▸ habove
    | false =>
      rw [hbelow, habove] at h
      cases h

/-- The value of a rank is in the middle of its interval. -/
theorem nearest_self {r d : Nat} (hr : 0 < r) (hd : 0 < d) : Nearest r (units r * d) d := by
  have hlow : (units (r - 1) + units r) * d < 2 * (units r * d) := by
    rw [← Nat.mul_assoc]
    have := units_lt_units (Nat.sub_lt hr Nat.one_pos)
    exact Nat.mul_lt_mul_of_pos_right (by omega) hd
  have hhigh : 2 * (units r * d) < (units r + units (r + 1)) * d := by
    rw [← Nat.mul_assoc]
    have := units_lt_units_succ r
    exact Nat.mul_lt_mul_of_pos_right (by omega) hd
  exact ⟨Nat.le_of_lt hlow, Nat.le_of_lt hhigh, fun heq => by omega, fun heq => by omega⟩

theorem inUnits_mul_pow_five (u : Nat) : inUnits (u * Nat.pow 5 1074) = u * Nat.pow 10 1074 := by
  have hten : Nat.pow 10 1074 = Nat.pow 5 1074 * Nat.pow 2 1074 := by decide +kernel
  rw [hten, inUnits]
  generalize Nat.pow 5 1074 = p, Nat.pow 2 1074 = q
  exact Nat.mul_assoc u p q

/-- The exact expansion reads back. -/
theorem exact_within {r : Nat} (hr : 0 < r) :
    within r (gridPoint (units r * Nat.pow 5 1074) (-1074)) = true := by
  have hup : (10 : Nat) ^ (-1074 : Int).toNat = 1 := by decide
  have hdown : (10 : Nat) ^ (-(-1074 : Int)).toNat = Nat.pow 10 1074 := by decide +kernel
  have hpos : 0 < Nat.pow 10 1074 := by decide +kernel
  refine within_iff.mpr ?_
  rw [hup, hdown, Nat.mul_one, inUnits_mul_pow_five]
  exact nearest_self hr hpos

theorem search_within (tie : Tie) {r : Nat} (hr : 0 < r) (grids : List Nat) :
    within r (gridPoint (search tie r grids).1 (search tie r grids).2) = true := by
  induction grids with
  | nil => exact exact_within hr
  | cons n more ih =>
    unfold search
    simp only []
    split
    next c hc => exact pick_within hc
    next => exact ih

/-! ## 2. Digits -/

/-- Taking zeros off the end keeps the number and the place of its first digit. -/
theorem trim_spec (k c : Nat) (g : Int) (hc : c ≠ 0) :
    let t := trim k c g
    t.1 ≠ 0 ∧ (∀ s, Decimal.top ⟨s, t.1, t.2⟩ = Decimal.top ⟨s, c, g⟩) ∧
      ∀ s, toBinary64 ⟨s, t.1, t.2⟩ = toBinary64 ⟨s, c, g⟩ := by
  induction k generalizing c g with
  | zero => exact ⟨hc, fun _ => rfl, fun _ => rfl⟩
  | succ k ih =>
    unfold trim
    split
    next hzero =>
      have hten : c / 10 * 10 = c := by omega
      have hc' : c / 10 ≠ 0 := by omega
      obtain ⟨hne, htop, hvalue⟩ := ih (c / 10) (g + 1) hc'
      refine ⟨hne, fun s => ?_, fun s => ?_⟩
      · rw [htop, ← top_mul_ten s hc', hten]
      · rw [hvalue, ← toBinary64_mul_ten, hten]
    next => exact ⟨hc, fun _ => rfl, fun _ => rfl⟩

/-- The shortest digits of a finite number. -/
theorem digits_spec (tie : Tie) {r : Nat} (hinf : r < infinityRank) :
    let d := digits tie r
    (d.1 = 0 → d.2 = 0) ∧ -330 ≤ d.2 + Digits.width d.1 ∧ d.2 + Digits.width d.1 ≤ 310 ∧
      ∀ s, toBinary64 ⟨s, d.1, d.2⟩ = ofRank s r := by
  unfold digits
  split
  next hzero =>
    subst hzero
    exact ⟨fun _ => rfl, by decide, by decide, fun _ => rfl⟩
  next hr =>
    have hpos := Nat.pos_of_ne_zero hr
    have hfound := within_iff.mp (search_within tie hpos (List.range' 1 17))
    generalize search tie r (List.range' 1 17) = found at hfound
    obtain ⟨c, g⟩ := found
    have htop := top_of_liesAt (d := ⟨false, c, g⟩) hfound hpos hinf
    obtain ⟨hne, hplace, hvalue⟩ := trim_spec (Digits.width c) c g htop.1
    have hplace' := hplace false
    simp only [Decimal.top] at hplace' htop
    refine ⟨fun h => absurd h hne, ?_, ?_, fun s => ?_⟩
    · rw [hplace']
      exact htop.2.1
    · rw [hplace']
      exact htop.2.2
    · rw [hvalue]
      exact toBinary64_of_liesAt (d := ⟨s, c, g⟩) hfound hinf

end Metering.Shortest
