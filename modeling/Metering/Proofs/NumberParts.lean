import Metering.Proofs.ShortestDigits

/-!
The parts of a written number.

A number is written as a whole part, a fraction behind a point and an exponent, and the last two
may be missing. Whatever the style, the parts spell the number itself, the whole part has no
needless zero in front, and the exponent is small. So a reader of numbers only has to be shown to
find the parts.

Results:
1. `Digits.ofDigits_append`: digits in two runs.
2. `NumberStyle.finite_parts`: the parts of a finite number.
-/
namespace Metering

/-! ## 1. Runs of digits -/

namespace Digits

theorem foldl_eq (n : Nat) (ds : List Char) :
    ds.foldl (fun n c => n * 10 + value c) n = n * 10 ^ ds.length + ofDigits ds := by
  induction ds generalizing n with
  | nil => exact (Nat.mul_one n).symm
  | cons c cs ih =>
    have hself : ofDigits (c :: cs) = value c * 10 ^ cs.length + ofDigits cs := by
      rw [ofDigits, List.foldl_cons, ih, Nat.zero_mul, Nat.zero_add]
    rw [List.foldl_cons, ih, hself, List.length_cons, Nat.pow_succ, Nat.add_mul, Nat.mul_assoc,
      Nat.mul_comm 10]
    omega

theorem ofDigits_append (a b : List Char) :
    ofDigits (a ++ b) = ofDigits a * 10 ^ b.length + ofDigits b := by
  rw [ofDigits, List.foldl_append, foldl_eq _ b]
  rfl

theorem ofDigits_zeros (k : Nat) : ofDigits (List.replicate k '0') = 0 := by
  induction k with
  | zero => rfl
  | succ k ih =>
    rw [List.replicate_succ', ofDigits_append, ih]
    rfl

/-- Induction along the digits of a number: it is a single one, or its last one stands behind the
digits of what is left. -/
@[elab_as_elim]
theorem digits_induction {base : Nat} (hone : 1 < base) {motive : Nat → Prop}
    (single : ∀ n, n < base → motive n) (more : ∀ n, base ≤ n → motive (n / base) → motive n)
    (n : Nat) : motive n := by
  induction n using Nat.strongRecOn with
  | _ n ih =>
    rcases Nat.lt_or_ge n base with hlt | hge
    · exact single n hlt
    · have hpos : 0 < n := Nat.lt_of_lt_of_le (Nat.zero_lt_of_lt hone) hge
      exact more n hge (ih (n / base) (Nat.div_lt_self hpos hone))

/-- The first digit of a number that is not zero is not zero, whatever the base. -/
theorem head?_toDigits_base {base n : Nat} (hone : 1 < base) (hbase : base ≤ 16) (hn : n ≠ 0) :
    (Nat.toDigits base n).head? ≠ some '0' := by
  induction n using digits_induction hone with
  | single n hlt =>
    rw [Nat.toDigits_of_lt_base hlt]
    have hall : ∀ n < 16, n ≠ 0 → Nat.digitChar n ≠ '0' := by decide
    exact fun h => hall n (Nat.lt_of_lt_of_le hlt hbase) hn (Option.some.inj h)
  | more n hge ih =>
    have hleft : n / base ≠ 0 := Nat.ne_of_gt (Nat.div_pos hge (Nat.zero_lt_of_lt hone))
    have hne : Nat.toDigits base (n / base) ≠ [] := Nat.toDigits_ne_nil
    rw [Nat.toDigits_of_base_le hone hge]
    cases hds : Nat.toDigits base (n / base) with
    | nil => exact absurd hds hne
    | cons d ds =>
      have hmore := ih hleft
      rw [hds] at hmore
      exact hmore

theorem head?_toDigits {n : Nat} (hn : n ≠ 0) : (toDigits n).head? ≠ some '0' :=
  head?_toDigits_base (by decide) (by decide) hn

end Digits

/-! ## 2. Parts -/

/-- The digits before and behind the point, and the exponent if one is written. -/
structure NumberParts where
  whole : List Char
  fraction : List Char
  exponent : Option Int

namespace NumberParts

/-- The exponent behind its letter, with a sign of its own. -/
def exponentText : Option Int → List Char
  | none => []
  | some e => 'e' :: (if e < 0 then '-' else '+') :: Digits.toDigits e.natAbs

/-- The point and the fraction, if there is one. -/
def fractionText : List Char → List Char
  | [] => []
  | ds => '.' :: ds

def text (p : NumberParts) : List Char :=
  p.whole ++ fractionText p.fraction ++ exponentText p.exponent

/-- The decimal that the parts spell. -/
def decimal (s : Bool) (p : NumberParts) : Decimal :=
  .ofParts s p.whole p.fraction (p.exponent.getD 0)

/-- What every style keeps to. -/
structure Sound (p : NumberParts) : Prop where
  whole_ne_nil : p.whole ≠ []
  isDigit_whole : ∀ c ∈ p.whole, c.isDigit = true
  head_whole : p.whole = ['0'] ∨ p.whole.head? ≠ some '0'
  isDigit_fraction : ∀ c ∈ p.fraction, c.isDigit = true
  exponent_le : ∀ e ∈ p.exponent, e.natAbs ≤ 331

theorem Sound.text_ne_nil {p : NumberParts} (hp : p.Sound) : p.text ≠ [] :=
  List.append_ne_nil_of_left_ne_nil (List.append_ne_nil_of_left_ne_nil hp.whole_ne_nil _) _

theorem Sound.isDigit_head {p : NumberParts} (hp : p.Sound) (c : Char)
    (hc : p.text.head? = some c) : c.isDigit = true := by
  refine hp.isDigit_whole c (List.mem_of_mem_head? ?_)
  unfold text at hc
  cases hw : p.whole with
  | nil => exact absurd hw hp.whole_ne_nil
  | cons d ds =>
    rw [hw] at hc
    exact hc

end NumberParts

namespace NumberStyle

open NumberParts

theorem isDigit_zeros {k : Nat} {c : Char} (h : c ∈ List.replicate k '0') : c.isDigit = true := by
  rw [List.eq_of_mem_replicate h]
  rfl

/-- No digit stands behind the point. -/
theorem placed_whole (keepPoint : Bool) (ds : List Char) {power : Int} (h : 0 ≤ power) :
    placed keepPoint ds power = ds ++ List.replicate power.toNat '0' ++
      fractionText (if keepPoint then ['0'] else []) := by
  have hafter : (-power).toNat = 0 := by omega
  unfold placed
  rw [hafter]
  cases keepPoint <;> rfl

/-- The point stands among the digits. -/
theorem placed_among (keepPoint : Bool) (ds : List Char) {power : Int} (h : power < 0)
    (hlt : (-power).toNat < ds.length) :
    placed keepPoint ds power = ds.take (ds.length - (-power).toNat) ++
      '.' :: ds.drop (ds.length - (-power).toNat) := by
  unfold placed
  dsimp only
  rw [if_neg (by omega), if_pos hlt]

/-- The point stands in front of the digits. -/
theorem placed_front (keepPoint : Bool) (ds : List Char) {power : Int} (h : power < 0)
    (hge : ds.length ≤ (-power).toNat) :
    placed keepPoint ds power = ['0'] ++
      '.' :: (List.replicate ((-power).toNat - ds.length) '0' ++ ds) := by
  unfold placed
  dsimp only
  rw [if_neg (by omega), if_neg (by omega)]
  rfl

theorem fractionText_of_ne_nil {ds : List Char} (h : ds ≠ []) : fractionText ds = '.' :: ds := by
  cases ds with
  | nil => exact absurd rfl h
  | cons => rfl

theorem head?_take {ds : List Char} {k : Nat} (hk : 0 < k) : (ds.take k).head? = ds.head? := by
  cases k with
  | zero => cases hk
  | succ k => cases ds <;> rfl

section Placed

variable (keepPoint s : Bool) {c : Nat} {power : Int}

/-- A whole number, with `.0` or without. -/
theorem placed_whole_parts (hzero : c = 0 → power = 0) (h : 0 ≤ power) :
    ∃ p : NumberParts, placed keepPoint (Digits.toDigits c) power = p.text ∧ p.Sound ∧
      (p.decimal s).toBinary64 = Decimal.toBinary64 ⟨s, c, power⟩ ∧
      (keepPoint = true → p.fraction ≠ []) := by
  have hpower : (power.toNat : Int) = power := by omega
  have hne := Digits.toDigits_ne_nil c
  have hwhole : Digits.toDigits c ++ List.replicate power.toNat '0' = ['0'] ∨
      (Digits.toDigits c ++ List.replicate power.toNat '0').head? ≠ some '0' := by
    by_cases hc : c = 0
    · left
      rw [hzero hc, hc]
      rfl
    · right
      have hhead := Digits.head?_toDigits hc
      cases hds : Digits.toDigits c with
      | nil => exact absurd hds hne
      | cons d ds =>
        rw [hds] at hhead
        exact hhead
  have hcoef : Digits.ofDigits (Digits.toDigits c ++ List.replicate power.toNat '0') =
      c * 10 ^ power.toNat := by
    rw [Digits.ofDigits_append, Digits.ofDigits_zeros, Digits.ofDigits_toDigits,
      List.length_replicate, Nat.add_zero]
  refine ⟨⟨Digits.toDigits c ++ List.replicate power.toNat '0',
    if keepPoint then ['0'] else [], none⟩, ?_, ⟨?_, ?_, hwhole, ?_, fun e he => by cases he⟩,
    ?_, ?_⟩
  · rw [placed_whole keepPoint _ h]
    exact (List.append_nil _).symm
  · exact List.append_ne_nil_of_left_ne_nil hne _
  · intro d hd
    rcases List.mem_append.mp hd with hd | hd
    · exact Digits.isDigit_of_mem_toDigits hd
    · exact isDigit_zeros hd
  · intro d hd
    cases keepPoint with
    | true => exact isDigit_zeros (k := 1) hd
    | false => cases hd
  · cases keepPoint with
    | true =>
      have hcoef' : Digits.ofDigits
          (Digits.toDigits c ++ List.replicate power.toNat '0' ++ ['0']) =
            c * 10 ^ (power.toNat + 1) := by
        rw [Digits.ofDigits_append, hcoef, show Digits.ofDigits ['0'] = 0 from rfl, Nat.pow_succ,
          Nat.mul_assoc]
        rfl
      simp only [decimal, Decimal.ofParts, if_true, hcoef']
      rw [Decimal.toBinary64_shift]
      congr 2
      simp
      omega
    | false =>
      simp only [decimal, Decimal.ofParts, Bool.false_eq_true, if_false, List.append_nil, hcoef]
      rw [Decimal.toBinary64_shift]
      congr 2
      simp
      omega
  · rintro rfl
    exact List.cons_ne_nil _ _

/-- The last digits stand behind the point. -/
theorem placed_among_parts (hc : c ≠ 0) (h : power < 0)
    (hlt : (-power).toNat < (Digits.toDigits c).length) :
    ∃ p : NumberParts, placed keepPoint (Digits.toDigits c) power = p.text ∧ p.Sound ∧
      (p.decimal s).toBinary64 = Decimal.toBinary64 ⟨s, c, power⟩ ∧
      (keepPoint = true → p.fraction ≠ []) := by
  have hdigits : ∀ d ∈ Digits.toDigits c, d.isDigit = true := fun d hd =>
    Digits.isDigit_of_mem_toDigits hd
  have hvalue := Digits.ofDigits_toDigits c
  have hhead := Digits.head?_toDigits hc
  have hpower : (((-power).toNat : Nat) : Int) = -power := by omega
  generalize Digits.toDigits c = ds at hdigits hvalue hhead hlt
  have hdrop : (ds.drop (ds.length - (-power).toNat)).length = (-power).toNat := by
    rw [List.length_drop]
    omega
  have hfraction : ds.drop (ds.length - (-power).toNat) ≠ [] := by
    refine List.ne_nil_of_length_pos ?_
    omega
  refine ⟨⟨ds.take (ds.length - (-power).toNat), ds.drop (ds.length - (-power).toNat), none⟩,
    ?_, ⟨?_, ?_, .inr ?_, ?_, fun e he => by cases he⟩, ?_, fun _ => hfraction⟩
  · rw [placed_among keepPoint ds h hlt, NumberParts.text, fractionText_of_ne_nil hfraction]
    exact (List.append_nil _).symm
  · refine List.ne_nil_of_length_pos ?_
    simp only [List.length_take]
    omega
  · exact fun d hd => hdigits d (List.mem_of_mem_take hd)
  · show (ds.take _).head? ≠ _
    rwa [head?_take (by omega)]
  · exact fun d hd => hdigits d (List.mem_of_mem_drop hd)
  · simp only [decimal, Decimal.ofParts, List.take_append_drop, hvalue, hdrop, hpower]
    congr 2
    simp

/-- All digits stand behind the point. -/
theorem placed_front_parts (h : power < 0) (hge : (Digits.toDigits c).length ≤ (-power).toNat) :
    ∃ p : NumberParts, placed keepPoint (Digits.toDigits c) power = p.text ∧ p.Sound ∧
      (p.decimal s).toBinary64 = Decimal.toBinary64 ⟨s, c, power⟩ ∧
      (keepPoint = true → p.fraction ≠ []) := by
  have hdigits : ∀ d ∈ Digits.toDigits c, d.isDigit = true := fun d hd =>
    Digits.isDigit_of_mem_toDigits hd
  have hvalue := Digits.ofDigits_toDigits c
  have hpower : (((-power).toNat : Nat) : Int) = -power := by omega
  have hfraction : List.replicate ((-power).toNat - (Digits.toDigits c).length) '0' ++
      Digits.toDigits c ≠ [] := List.append_ne_nil_of_right_ne_nil _ (Digits.toDigits_ne_nil c)
  generalize Digits.toDigits c = ds at hdigits hvalue hge hfraction
  have hcoef : Digits.ofDigits
      (['0'] ++ (List.replicate ((-power).toNat - ds.length) '0' ++ ds)) = c := by
    rw [Digits.ofDigits_append, Digits.ofDigits_append, Digits.ofDigits_zeros, hvalue,
      show Digits.ofDigits ['0'] = 0 from rfl]
    omega
  refine ⟨⟨['0'], List.replicate ((-power).toNat - ds.length) '0' ++ ds, none⟩,
    ?_, ⟨List.cons_ne_nil _ _, fun d hd => isDigit_zeros (k := 1) hd, .inl rfl, ?_,
      fun e he => by cases he⟩, ?_, fun _ => hfraction⟩
  · rw [placed_front keepPoint ds h hge, NumberParts.text, fractionText_of_ne_nil hfraction]
    exact (List.append_nil _).symm
  · intro d hd
    rcases List.mem_append.mp hd with hd | hd
    · exact isDigit_zeros hd
    · exact hdigits d hd
  · simp only [decimal, Decimal.ofParts, hcoef, List.length_append, List.length_replicate,
      Nat.sub_add_cancel hge, hpower]
    congr 2
    simp

/-- Digits with the point wherever it belongs. -/
theorem placed_parts (hzero : c = 0 → power = 0) :
    ∃ p : NumberParts, placed keepPoint (Digits.toDigits c) power = p.text ∧ p.Sound ∧
      (p.decimal s).toBinary64 = Decimal.toBinary64 ⟨s, c, power⟩ ∧
      (keepPoint = true → p.fraction ≠ []) := by
  rcases Int.lt_or_le power 0 with hneg | hnonneg
  · have hc : c ≠ 0 := fun h => by
      rw [hzero h] at hneg
      exact absurd hneg (by decide)
    rcases Nat.lt_or_ge (-power).toNat (Digits.toDigits c).length with hlt | hge
    · exact placed_among_parts keepPoint s hc hneg hlt
    · exact placed_front_parts keepPoint s hneg hge
  · exact placed_whole_parts keepPoint s hzero hnonneg

end Placed

/-- One digit, the others behind the point, and the power of ten of the first. -/
theorem scientific_parts (s : Bool) {c : Nat} {power : Int}
    (hlow : -330 ≤ power + Digits.width c) (hhigh : power + Digits.width c ≤ 310) :
    ∃ p : NumberParts, scientific (Digits.toDigits c) (power + Digits.width c - 1) = p.text ∧
      p.Sound ∧ (p.decimal s).toBinary64 = Decimal.toBinary64 ⟨s, c, power⟩ ∧
      p.exponent ≠ none := by
  have hvalue := Digits.ofDigits_toDigits c
  have hdigits : ∀ d ∈ Digits.toDigits c, d.isDigit = true := fun d hd =>
    Digits.isDigit_of_mem_toDigits hd
  have hpos := Digits.width_pos c
  have hhead : Digits.toDigits c = ['0'] ∨ (Digits.toDigits c).head? ≠ some '0' := by
    by_cases hc : c = 0
    · exact .inl (hc ▸ rfl)
    · exact .inr (Digits.head?_toDigits hc)
  unfold Digits.width at hlow hhigh hpos ⊢
  generalize Digits.toDigits c = ds at hvalue hdigits hpos hhead hlow hhigh
  refine ⟨⟨ds.take 1, ds.drop 1, some (power + ds.length - 1)⟩, ?_, ⟨?_, ?_, ?_, ?_, ?_⟩, ?_,
    Option.some_ne_none _⟩
  · unfold scientific NumberParts.text exponentText
    simp only [List.append_assoc]
    congr 1
  · refine List.ne_nil_of_length_pos ?_
    simp only [List.length_take]
    omega
  · exact fun d hd => hdigits d (List.mem_of_mem_take hd)
  · rcases hhead with rfl | hhead
    · exact .inl rfl
    · right
      simp only []
      rwa [head?_take (by decide)]
  · exact fun d hd => hdigits d (List.mem_of_mem_drop hd)
  · intro e he
    obtain rfl := Option.some.inj he
    omega
  · simp only [decimal, Decimal.ofParts, List.take_append_drop, hvalue, List.length_drop]
    congr 2
    show power + (ds.length : Int) - 1 - ((ds.length - 1 : Nat) : Int) = power
    omega

/-- A finite number is written with its sign and parts that spell it. -/
theorem finite_parts (n : NumberStyle) {x : Binary64} (hx : x.isFinite = true) :
    ∃ p : NumberParts, n.finite x = (if x.negative then ['-'] else []) ++ p.text ∧ p.Sound ∧
      (p.decimal x.negative).toBinary64 = x ∧
      (n.keepPoint = true → p.fraction ≠ [] ∨ p.exponent ≠ none) := by
  have hinf : x.rank < Binary64.infinityRank := of_decide_eq_true hx
  obtain ⟨hzero, hlow, hhigh, hvalue⟩ := Shortest.digits_spec n.tie hinf
  unfold finite
  generalize Shortest.digits n.tie x.rank = d at hzero hlow hhigh hvalue
  obtain ⟨c, power⟩ := d
  have hself := (hvalue x.negative).trans (Binary64.ofRank_rank x)
  dsimp only at hzero hlow hhigh hself ⊢
  have hbody : ∃ p : NumberParts,
      (if n.positional (power + (Digits.toDigits c).length - 1) then
        placed n.keepPoint (Digits.toDigits c) power
      else scientific (Digits.toDigits c) (power + (Digits.toDigits c).length - 1)) = p.text ∧
      p.Sound ∧ (p.decimal x.negative).toBinary64 = x ∧
      (n.keepPoint = true → p.fraction ≠ [] ∨ p.exponent ≠ none) := by
    split
    next =>
      obtain ⟨p, htext, hsound, hp, hpoint⟩ := placed_parts n.keepPoint x.negative hzero
      exact ⟨p, htext, hsound, hp.trans hself, fun h => .inl (hpoint h)⟩
    next =>
      obtain ⟨p, htext, hsound, hp, hexp⟩ := scientific_parts x.negative hlow hhigh
      exact ⟨p, htext, hsound, hp.trans hself, fun _ => .inr hexp⟩
  obtain ⟨p, htext, hsound, hp, hpoint⟩ := hbody
  refine ⟨p, ?_, hsound, hp, hpoint⟩
  rw [htext]
  cases x.negative <;> rfl

end NumberStyle
end Metering
