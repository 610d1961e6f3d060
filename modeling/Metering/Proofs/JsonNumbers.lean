import Metering.Proofs.JsonReads
import Metering.Proofs.NumberParts

/-!
Written numbers are read back.

A number in a document is read from left to right: its whole part, and then a fraction and an
exponent if they are there. The parts are found because a digit, a point and an exponent letter
cannot stand behind a value (`Ends`), and their power of ten is too small to be cut off.

Results:
1. `reads_digits`: a run of digits is taken whole.
2. `reads_parts`: parts with a point or an exponent are read as the decimal that they spell.
3. `reads_signedNumber`: what is written for a number is read as that number.
-/
namespace Metering.JsonReader

open Json

/-! ## 1. Digits -/

/-- What cannot go on a run of digits. -/
def NoDigit (rest : Bytes) : Prop := ∀ b, rest.head? = some b → isDigit b = false

theorem NoDigit.cons {b : UInt8} (h : isDigit b = false) (rest : Bytes) : NoDigit (b :: rest) := by
  intro x hx
  obtain rfl := Option.some.inj hx
  exact h

theorem noDigit_of_ends {rest : Bytes} (h : Ends rest) : NoDigit rest := by
  intro b hb
  rcases h b hb with hblank | rfl | rfl | rfl
  · unfold JsonCursor.isBlank at hblank
    simp only [Bool.or_eq_true, beq_iff_eq] at hblank
    rcases hblank with ((rfl | rfl) | rfl) | rfl <;> rfl
  · rfl
  · rfl
  · rfl

theorem digit_byte_toNat : ∀ n < 58, 48 ≤ n → isDigit (UInt8.ofNat n) = true ∧
    digitValue (UInt8.ofNat n) = n - 48 ∧ (UInt8.ofNat n = 0x30 ↔ n = 48) := by
  decide

/-- The byte of a digit character. -/
theorem digit_byte {c : Char} (h : c.isDigit = true) :
    isDigit (UInt8.ofNat c.toNat) = true ∧ digitValue (UInt8.ofNat c.toNat) = Digits.value c ∧
      (UInt8.ofNat c.toNat = 0x30 ↔ c = '0') := by
  have hrange : 48 ≤ c.toNat ∧ c.toNat ≤ 57 := by
    unfold Char.isDigit at h
    simp only [Bool.and_eq_true, decide_eq_true_eq] at h
    exact h
  have hzero : c = '0' ↔ c.toNat = 48 := ⟨fun h => by rw [h]; rfl, fun h => Char.toNat_inj.mp h⟩
  obtain ⟨hdigit, hvalue, hself⟩ := digit_byte_toNat c.toNat (by omega) hrange.1
  exact ⟨hdigit, hvalue, hself.trans hzero.symm⟩

theorem natOf_ascii {ds : List Char} (h : ∀ c ∈ ds, c.isDigit = true) :
    natOf (ascii ds) = Digits.ofDigits ds := by
  have hfold : ∀ (ds : List Char) (n : Nat), (∀ c ∈ ds, c.isDigit = true) →
      (ascii ds).foldl (fun n b => n * 10 + digitValue b) n =
        ds.foldl (fun n c => n * 10 + Digits.value c) n := by
    intro ds
    induction ds with
    | nil => exact fun _ _ => rfl
    | cons c cs ih =>
      intro n hcs
      show (ascii cs).foldl _ (n * 10 + digitValue (UInt8.ofNat c.toNat)) = _
      rw [(digit_byte (hcs c List.mem_cons_self)).2.1]
      exact ih _ fun d hd => hcs d (List.mem_cons_of_mem c hd)
  exact hfold ds 0 h

theorem reads_digits {ds : List Char} (h : ∀ c ∈ ds, c.isDigit = true) {rest : Bytes}
    (hrest : NoDigit rest) : Reads digits (ascii ds) (ascii ds) rest := by
  intro c hc
  have hall : ∀ b ∈ ascii ds, isDigit b = true := by
    intro b hb
    obtain ⟨d, hd, rfl⟩ := List.mem_map.mp hb
    exact (digit_byte (h d hd)).1
  have htake : c.rest.takeWhile isDigit = ascii ds := by
    rw [hc]
    exact HeadRuns.takeWhile_append hall hrest
  refine ⟨c.advance (ascii ds).length, ?_, ?_⟩
  · unfold digits
    rw [htake]
  · rw [Reads.advance_rest, hc, List.drop_left]

/-! ## 2. Parts -/

theorem reads_rounded {s : Spelled} {power : Int} {x : Binary64}
    (hvalue : Decimal.toBinary64 ⟨s.negative, s.coefficient, power - s.places⟩ = x)
    (hx : x.isFinite = true) (rest : Bytes) : Reads (rounded s power) [] (.binary x) rest := by
  unfold rounded
  rw [hvalue]
  dsimp only
  rw [if_pos hx]
  exact Reads.pure _ _

/-- A power that is within the limit is taken as it is. -/
theorem overLimit?_eq_none {ds : Bytes} {taken n : Nat}
    (h : ds.foldl (fun n b => n * 10 + digitValue b) n ≤ powerLimit) :
    overLimit? taken n ds = none := by
  have hle : ∀ (ds : Bytes) (n : Nat), n ≤ ds.foldl (fun n b => n * 10 + digitValue b) n := by
    intro ds
    induction ds with
    | nil => exact fun n => Nat.le_refl n
    | cons b ds ih => exact fun n => Nat.le_trans (by omega) (ih (n * 10 + digitValue b))
  induction ds generalizing taken n with
  | nil => rfl
  | cons b ds ih =>
    rw [List.foldl_cons] at h
    unfold overLimit?
    dsimp only
    rw [if_neg (Nat.not_lt.mpr (Nat.le_trans (hle ds _) h))]
    exact ih h

theorem ascii_head {ds : List Char} (h : ∀ c ∈ ds, c.isDigit = true) (hne : ds ≠ []) :
    ∃ b more, ascii ds = b :: more ∧ isDigit b = true := by
  cases ds with
  | nil => exact absurd rfl hne
  | cons c cs => exact ⟨_, _, rfl, (digit_byte (h c List.mem_cons_self)).1⟩

/-- A written exponent, on its letter. -/
theorem reads_exponent {s : Spelled} {e : Int} {x : Binary64}
    (hvalue : Decimal.toBinary64 ⟨s.negative, s.coefficient, e - s.places⟩ = x)
    (hx : x.isFinite = true) (he : e.natAbs ≤ 331) {rest : Bytes} (hrest : NoDigit rest) :
    Reads (exponent s) (ascii (NumberParts.exponentText (some e))) (.binary x) rest := by
  have hdigits : ∀ c ∈ Digits.toDigits e.natAbs, c.isDigit = true := fun c hc =>
    Digits.isDigit_of_mem_toDigits hc
  have hnat : natOf (ascii (Digits.toDigits e.natAbs)) = e.natAbs := by
    rw [natOf_ascii hdigits, Digits.ofDigits_toDigits]
  obtain ⟨b, more, hhead, hb⟩ := ascii_head hdigits (Digits.toDigits_ne_nil e.natAbs)
  have hlimit : overLimit? 0 0 (ascii (Digits.toDigits e.natAbs)) = none := by
    refine overLimit?_eq_none ?_
    show natOf _ ≤ _
    rw [hnat]
    exact Nat.le_trans he (by decide)
  unfold exponent
  refine Reads.bump (Reads.peek ?_)
  extract_lets power
  -- What is read behind the sign is the same for both signs.
  have hpower : ∀ positive : Bool, (if positive then (e.natAbs : Int) else -e.natAbs) = e →
      Reads (power positive) (ascii (Digits.toDigits e.natAbs)) (.binary x) rest := by
    intro positive hsigned
    refine Reads.peek ?_
    rw [hhead]
    show Reads (if (!isDigit b) = true then _ else _) _ _ _
    rw [hb, if_neg (by decide), ← hhead]
    refine Reads.get fun c => ?_
    refine (reads_digits hdigits hrest).bind_last ?_
    rw [hlimit, hnat]
    refine reads_rounded ?_ hx rest
    rw [hsigned, hvalue]
  by_cases hneg : e < 0
  · rw [if_pos hneg]
    refine Reads.bump (Reads.bind_nil (Reads.pure false _) (hpower false ?_))
    rw [if_neg (by decide)]
    omega
  · rw [if_neg hneg]
    refine Reads.bump (Reads.bind_nil (Reads.pure true _) (hpower true ?_))
    rw [if_pos rfl]
    omega

/-- Behind a value there is no exponent. -/
theorem not_exponent_of_ends {rest : Bytes} (h : Ends rest) :
    rest.head? ≠ some 0x65 ∧ rest.head? ≠ some 0x45 ∧ rest.head? ≠ some 0x2e := by
  have hne : ∀ b : UInt8, rest.head? = some b →
      b ≠ 0x65 ∧ b ≠ 0x45 ∧ b ≠ 0x2e := by
    intro b hb
    rcases h b hb with hblank | rfl | rfl | rfl
    · unfold JsonCursor.isBlank at hblank
      simp only [Bool.or_eq_true, beq_iff_eq] at hblank
      rcases hblank with ((rfl | rfl) | rfl) | rfl <;> decide
    · decide
    · decide
    · decide
  exact ⟨fun h => (hne _ h).1 rfl, fun h => (hne _ h).2.1 rfl, fun h => (hne _ h).2.2 rfl⟩

/-- A fraction, an exponent or both behind the whole part. -/
theorem reads_afterWhole {s : Bool} {whole : Nat} {fraction : List Char} {exponent : Option Int}
    {x : Binary64} (hpoint : fraction ≠ [] ∨ exponent ≠ none)
    (hfraction : ∀ c ∈ fraction, c.isDigit = true) (hexponent : ∀ e ∈ exponent, e.natAbs ≤ 331)
    (hvalue : Decimal.toBinary64 ⟨s, whole * 10 ^ fraction.length + Digits.ofDigits fraction,
      exponent.getD 0 - fraction.length⟩ = x) (hx : x.isFinite = true)
    {rest : Bytes} (hrest : Ends rest) :
    Reads (afterWhole s whole)
      (ascii (NumberParts.fractionText fraction) ++ ascii (NumberParts.exponentText exponent))
      (.binary x) rest := by
  have hlength : (ascii fraction).length = fraction.length := List.length_map _
  unfold afterWhole
  cases hf : fraction with
  | nil =>
    cases he : exponent with
    | none => exact absurd he (hpoint.resolve_left fun h => h hf)
    | some e =>
      rw [hf, he] at hvalue
      refine Reads.peek ?_
      have hspelled := reads_exponent (s := ⟨s, whole, 0⟩) (e := e) (x := x) ?_ hx
        (hexponent e he) (noDigit_of_ends hrest)
      · exact hspelled
      · rw [← hvalue]
        simp [Digits.ofDigits]
  | cons d ds =>
    rw [← hf]
    have hne : fraction ≠ [] := hf ▸ List.cons_ne_nil d ds
    have hascii : ascii fraction ≠ [] := fun h => hne (List.map_eq_nil_iff.mp h)
    rw [NumberStyle.fractionText_of_ne_nil hne]
    refine Reads.peek (Reads.bump ?_)
    cases he : exponent with
    | none =>
      rw [he] at hvalue
      refine (reads_digits hfraction (noDigit_of_ends hrest)).bind ?_
      refine Reads.peek ?_
      rw [if_neg hascii, natOf_ascii hfraction, hlength]
      obtain ⟨h65, h45, -⟩ := not_exponent_of_ends hrest
      have hnothing : ascii (NumberParts.exponentText none) ++ rest = rest := rfl
      rw [hnothing]
      split
      next h => exact absurd h h65
      next h => exact absurd h h45
      next =>
        refine reads_rounded ?_ hx rest
        rw [← hvalue]
        rfl
    | some e =>
      rw [he] at hvalue
      have hletter : NoDigit (ascii (NumberParts.exponentText (some e)) ++ rest) :=
        NoDigit.cons (by decide) _
      refine (reads_digits hfraction hletter).bind ?_
      refine Reads.peek ?_
      rw [if_neg hascii, natOf_ascii hfraction, hlength]
      refine reads_exponent ?_ hx (hexponent e he) (noDigit_of_ends hrest)
      rw [← hvalue]
      rfl

/-- A whole part that is not needlessly long, and what follows it. -/
theorem reads_whole {s : Bool} {whole : List Char} (hne : whole ≠ [])
    (hdigits : ∀ c ∈ whole, c.isDigit = true)
    (hhead : whole = ['0'] ∨ whole.head? ≠ some '0') {b : Bytes} {n : JsonNumber} {rest : Bytes}
    (hrest : NoDigit (b ++ rest))
    (h : Reads (afterWhole s (Digits.ofDigits whole)) b n rest) :
    Reads (number s) (ascii whole ++ b) n rest := by
  unfold number
  rcases hhead with rfl | hhead
  · refine Reads.peek ?_
    show Reads (if (0x30 : UInt8) = 0x30 then _ else _) (0x30 :: b) n rest
    rw [if_pos rfl]
    refine Reads.bump (Reads.peek ?_)
    cases hb : (b ++ rest).head? with
    | none => exact h
    | some d =>
      show Reads (if isDigit d = true then _ else _) b n rest
      rw [hrest d hb, if_neg (by decide)]
      exact h
  · cases whole with
    | nil => exact absurd rfl hne
    | cons c cs =>
      obtain ⟨hdigit, -, hzero⟩ := digit_byte (hdigits c List.mem_cons_self)
      refine Reads.peek ?_
      show Reads (if UInt8.ofNat c.toNat = 0x30 then _ else _) _ n rest
      rw [if_neg fun hc => hhead (congrArg some (hzero.mp hc)), if_pos hdigit]
      refine (reads_digits hdigits hrest).bind ?_
      rw [natOf_ascii hdigits]
      exact h

/-- Parts are read as the decimal that they spell. -/
theorem reads_parts {p : NumberParts} (hp : p.Sound) {s : Bool} {x : Binary64}
    (hpoint : p.fraction ≠ [] ∨ p.exponent ≠ none) (hvalue : (p.decimal s).toBinary64 = x)
    (hx : x.isFinite = true) {rest : Bytes} (hrest : Ends rest) :
    Reads (number s) (ascii p.text) (.binary x) rest := by
  have htext : ascii p.text = ascii p.whole ++
      (ascii (NumberParts.fractionText p.fraction) ++
        ascii (NumberParts.exponentText p.exponent)) := by
    simp only [ascii, NumberParts.text, List.map_append, List.append_assoc]
  have hnext : NoDigit (ascii (NumberParts.fractionText p.fraction) ++
      ascii (NumberParts.exponentText p.exponent) ++ rest) := by
    cases hf : p.fraction with
    | nil =>
      cases he : p.exponent with
      | none => exact noDigit_of_ends hrest
      | some e => exact NoDigit.cons (by decide) _
    | cons d ds => exact NoDigit.cons (by decide) _
  rw [htext]
  refine reads_whole hp.whole_ne_nil hp.isDigit_whole hp.head_whole hnext ?_
  refine reads_afterWhole hpoint hp.isDigit_fraction hp.exponent_le ?_ hx hrest
  rw [← hvalue, ← Digits.ofDigits_append]
  rfl

/-! ## 3. Numbers -/

/-- The numbers that a document can hold: whole ones of 64 bits, and finite ones. -/
def Writable : JsonNumber → Prop
  | .natural n => n < 0x10000000000000000
  | .negative i => -0x8000000000000000 ≤ i ∧ i < 0
  | .binary x => x.isFinite = true

/-- Behind a whole number of 64 bits there is nothing. -/
theorem reads_afterWhole_nothing {s : Bool} {whole : Nat} {n : JsonNumber}
    (h : (s = false ∧ whole < 0x10000000000000000 ∧ n = .natural whole) ∨
      (s = true ∧ 0 < whole ∧ whole ≤ 0x8000000000000000 ∧ n = .negative (-(whole : Int))))
    {rest : Bytes} (hrest : Ends rest) : Reads (afterWhole s whole) [] n rest := by
  obtain ⟨h65, h45, h2e⟩ := not_exponent_of_ends hrest
  unfold afterWhole
  refine Reads.peek ?_
  rw [List.nil_append]
  split
  next h => exact absurd h h2e
  next h => exact absurd h h65
  next h => exact absurd h h45
  next =>
    rcases h with ⟨rfl, hlt, rfl⟩ | ⟨rfl, hpos, hle, rfl⟩
    · rw [if_neg (by decide), if_pos hlt]
      exact Reads.pure _ _
    · rw [if_pos rfl, if_neg (by omega)]
      exact Reads.pure _ _

theorem reads_unsigned {cs : List Char} {n : JsonNumber} {rest : Bytes}
    (hhead : ∀ c, cs.head? = some c → c.isDigit = true)
    (h : Reads (number false) (ascii cs) n rest) (hne : cs ≠ []) :
    Reads signedNumber (ascii cs) n rest := by
  cases cs with
  | nil => exact absurd rfl hne
  | cons c cs =>
    unfold signedNumber
    refine Reads.peek ?_
    split
    next hc =>
      have hdigit := (digit_byte (hhead c rfl)).1
      have hsign : UInt8.ofNat c.toNat = 0x2d := Option.some.inj hc
      rw [hsign] at hdigit
      exact absurd hdigit (by decide)
    next => exact h

theorem reads_negated {cs : List Char} {n : JsonNumber} {rest : Bytes}
    (h : Reads (number true) (ascii cs) n rest) : Reads signedNumber (ascii ('-' :: cs)) n rest := by
  unfold signedNumber
  exact Reads.peek (Reads.bump h)

theorem reads_toDigits {s : Bool} {k : Nat} {n : JsonNumber} {rest : Bytes} (hrest : Ends rest)
    (h : Reads (afterWhole s k) [] n rest) :
    Reads (number s) (ascii (Digits.toDigits k)) n rest := by
  have hhead : Digits.toDigits k = ['0'] ∨ (Digits.toDigits k).head? ≠ some '0' := by
    by_cases hk : k = 0
    · exact .inl (hk ▸ rfl)
    · exact .inr (Digits.head?_toDigits hk)
  rw [← List.append_nil (ascii _)]
  refine reads_whole (Digits.toDigits_ne_nil k) (fun c hc => Digits.isDigit_of_mem_toDigits hc)
    hhead (noDigit_of_ends hrest) ?_
  rw [Digits.ofDigits_toDigits]
  exact h

/-- What is written for a number is read as that number. -/
theorem reads_signedNumber {n : JsonNumber} (hn : Writable n) {rest : Bytes} (hrest : Ends rest) :
    Reads signedNumber (ascii (numberText n)) n rest := by
  have hdigit : ∀ (k : Nat) (c : Char), (Digits.toDigits k).head? = some c → c.isDigit = true :=
    fun k c hc => Digits.isDigit_of_mem_toDigits (List.mem_of_mem_head? hc)
  cases n with
  | natural k =>
    refine reads_unsigned (hdigit k) (reads_toDigits hrest ?_) (Digits.toDigits_ne_nil k)
    exact reads_afterWhole_nothing (.inl ⟨rfl, hn, rfl⟩) hrest
  | negative i =>
    obtain ⟨hlow, hneg⟩ := hn
    cases i with
    | ofNat k => exact absurd hneg (Int.not_lt.mpr (Int.natCast_nonneg k))
    | negSucc k =>
      refine reads_negated (reads_toDigits hrest ?_)
      exact reads_afterWhole_nothing (.inr ⟨rfl, Nat.succ_pos k, by omega, rfl⟩) hrest
  | binary x =>
    have hx : x.isFinite = true := hn
    obtain ⟨p, htext, hsound, hvalue, hpoint⟩ := NumberStyle.finite_parts numberStyle hx
    have hreads := reads_parts hsound (hpoint rfl) hvalue hx hrest
    rw [numberText, if_pos hx, htext]
    cases hs : x.negative with
    | true =>
      rw [hs] at hreads
      exact reads_negated hreads
    | false =>
      rw [hs] at hreads
      exact reads_unsigned hsound.isDigit_head hreads hsound.text_ne_nil

end Metering.JsonReader
