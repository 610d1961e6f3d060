import Mathlib.Algebra.Ring.Int.Defs
import Metering.Metric.Basic
import Metering.Proofs.DecimalRange
import Metering.Proofs.HeadRuns
import Metering.Proofs.NumberParts

/-!
Texts of values.

A counter is spelled by digits with a sign or without. A gauge is spelled by a decimal: digits with
a point among them or without, then an exponent or none. The names of infinity and of the value
that is no number are read as numbers too, but no gauge can have these values, and neither can it
have a decimal that is too great.

A value is read back, bit for bit, from the text that is written for it, and so is whatever has
been read once.

Results:
1. `Digits.readInt?_eq_some_iff`: which texts are whole numbers.
2. `Binary64.readDecimal?_eq_some_iff`: which texts are decimals.
3. `Binary64.ofText?_of_spells`, `Binary64.ofText?_of_names`, `Binary64.spells_of_ofText?`: which
   texts are numbers.
4. `Binary64.ofText?_text`, `Value.parse_text`: a value is read back from its text.
5. `Value.texts_read_back`: every value and every text.
-/
namespace Metering

/-! ## 1. Whole numbers -/

namespace Digits

/-- Digits, with a sign in front of them or without, and the whole number that they say. -/
inductive SpellsInt : List Char → Int → Prop
  | bare {ds : List Char} :
      ds ≠ [] → (∀ c ∈ ds, c.isDigit = true) → SpellsInt ds (ofDigits ds)
  | plus {ds : List Char} :
      ds ≠ [] → (∀ c ∈ ds, c.isDigit = true) → SpellsInt ('+' :: ds) (ofDigits ds)
  | minus {ds : List Char} :
      ds ≠ [] → (∀ c ∈ ds, c.isDigit = true) → SpellsInt ('-' :: ds) (-(ofDigits ds : Int))

theorem ne_of_isDigit {c d : Char} (hc : c.isDigit = true) (hd : d.isDigit = false) : c ≠ d :=
  fun h => Bool.noConfusion (hc.symm.trans (h ▸ hd))

/-- Without a sign in front, all characters have to be digits. -/
theorem readInt?_bare {cs : List Char} (hminus : cs.head? ≠ some '-')
    (hplus : cs.head? ≠ some '+') :
    readInt? cs = if cs ≠ [] ∧ cs.all Char.isDigit then some (ofDigits cs : Int) else none := by
  unfold readInt?
  split
  next => exact absurd rfl hminus
  next => exact absurd rfl hplus
  next => rfl

theorem readInt?_eq_some_iff {cs : List Char} {i : Int} :
    readInt? cs = some i ↔ SpellsInt cs i := by
  have hdigits {ds : List Char} {j k : Int} :
      (if ds ≠ [] ∧ ds.all Char.isDigit then some j else none) = some k ↔
        (ds ≠ [] ∧ ∀ c ∈ ds, c.isDigit = true) ∧ j = k := by
    rw [Option.ite_none_right_eq_some, List.all_eq_true, Option.some.injEq]
  constructor
  · intro h
    unfold readInt? at h
    split at h
    next =>
      obtain ⟨⟨hne, hds⟩, rfl⟩ := hdigits.mp h
      exact .minus hne hds
    next =>
      obtain ⟨⟨hne, hds⟩, rfl⟩ := hdigits.mp h
      exact .plus hne hds
    next =>
      obtain ⟨⟨hne, hds⟩, rfl⟩ := hdigits.mp h
      exact .bare hne hds
  · intro h
    cases h with
    | bare hne hds =>
      have hhead {d : Char} (hd : d.isDigit = false) : cs.head? ≠ some d := fun hc =>
        ne_of_isDigit (hds d (List.mem_of_mem_head? hc)) hd rfl
      rw [readInt?_bare (hhead rfl) (hhead rfl)]
      exact hdigits.mpr ⟨⟨hne, hds⟩, rfl⟩
    | plus hne hds => exact hdigits.mpr ⟨⟨hne, hds⟩, rfl⟩
    | minus hne hds => exact hdigits.mpr ⟨⟨hne, hds⟩, rfl⟩

/-- A run of digits ends where something else begins. -/
theorem span_append {ds rest : List Char} (hds : ∀ c ∈ ds, c.isDigit = true)
    (hrest : ∀ c, rest.head? = some c → c.isDigit = false) : span (ds ++ rest) = (ds, rest) := by
  unfold span
  rw [HeadRuns.takeWhile_append hds hrest, HeadRuns.dropWhile_append hds hrest]

/-- Every text has a run of digits at its head, which may be empty. -/
theorem exists_span (cs : List Char) :
    ∃ ds rest, span cs = (ds, rest) ∧ cs = ds ++ rest ∧ ∀ c ∈ ds, c.isDigit = true :=
  ⟨_, _, rfl, List.takeWhile_append_dropWhile.symm, List.all_eq_true.mp List.all_takeWhile⟩

end Digits

/-! ## 2. Decimals -/

namespace Decimal

/-- An exponent: nothing, or an `e` and a whole number. -/
inductive SpellsPower : List Char → Int → Prop
  | none : SpellsPower [] 0
  | written {e : Char} {cs : List Char} {power : Int} :
      e = 'e' ∨ e = 'E' → Digits.SpellsInt cs power → SpellsPower (e :: cs) power

/-- A decimal without its sign: digits, with a point at some place among them or at an end or with
none, and an exponent. -/
inductive SpellsUnsigned (negative : Bool) : List Char → Decimal → Prop
  | whole {ds cs : List Char} {power : Int} :
      ds ≠ [] → (∀ c ∈ ds, c.isDigit = true) → SpellsPower cs power →
      SpellsUnsigned negative (ds ++ cs) (.ofParts negative ds [] power)
  | pointed {ds fs cs : List Char} {power : Int} :
      ¬ (ds = [] ∧ fs = []) → (∀ c ∈ ds, c.isDigit = true) → (∀ c ∈ fs, c.isDigit = true) →
      SpellsPower cs power →
      SpellsUnsigned negative (ds ++ '.' :: (fs ++ cs)) (.ofParts negative ds fs power)

/-- A decimal, with a sign in front or without. -/
inductive Spells : List Char → Decimal → Prop
  | bare {cs : List Char} {d : Decimal} : SpellsUnsigned false cs d → Spells cs d
  | plus {cs : List Char} {d : Decimal} : SpellsUnsigned false cs d → Spells ('+' :: cs) d
  | minus {cs : List Char} {d : Decimal} : SpellsUnsigned true cs d → Spells ('-' :: cs) d

/-- An exponent starts with no digit and no point. -/
theorem SpellsPower.head {cs : List Char} {power : Int} (h : SpellsPower cs power) {c : Char}
    (hc : cs.head? = some c) : c.isDigit = false ∧ c ≠ '.' := by
  cases h with
  | none => cases hc
  | written he _ =>
    obtain rfl := Option.some.inj hc
    rcases he with rfl | rfl
    · exact ⟨rfl, by decide⟩
    · exact ⟨rfl, by decide⟩

/-- A decimal without its sign starts with a digit or a point. -/
theorem SpellsUnsigned.head {s : Bool} {cs : List Char} {d : Decimal} (h : SpellsUnsigned s cs d) :
    ∃ c, cs.head? = some c ∧ (c.isDigit = true ∨ c = '.') := by
  have hfirst {ds rest : List Char} (hds : ∀ c ∈ ds, c.isDigit = true) (hne : ds ≠ []) :
      ∃ c, (ds ++ rest).head? = some c ∧ (c.isDigit = true ∨ c = '.') := by
    cases ds with
    | nil => exact absurd rfl hne
    | cons c ds => exact ⟨c, rfl, .inl (hds c List.mem_cons_self)⟩
  cases h with
  | whole hne hds _ => exact hfirst hds hne
  | @pointed ds _ _ _ _ hds _ _ =>
    by_cases hne : ds = []
    · subst hne
      exact ⟨'.', rfl, .inr rfl⟩
    · exact hfirst hds hne

end Decimal

namespace Binary64

open Decimal (SpellsPower SpellsUnsigned)

theorem readExponent?_eq_some_iff {cs : List Char} {power : Int} :
    readExponent? cs = some power ↔ SpellsPower cs power := by
  cases cs with
  | nil =>
    constructor
    · intro h
      obtain rfl := Option.some.inj h
      exact .none
    · rintro ⟨⟩
      rfl
  | cons e cs =>
    rw [readExponent?, Option.ite_none_right_eq_some, Digits.readInt?_eq_some_iff]
    constructor
    · rintro ⟨he, hcs⟩
      exact .written he hcs
    · rintro (_ | ⟨he, hcs⟩)
      exact ⟨he, hcs⟩

variable {s : Bool} {cs : List Char}

/-- Digits with no point behind them. -/
theorem readDecimal?_of_whole {ds rest : List Char} (hspan : Digits.span cs = (ds, rest))
    (hpoint : rest.head? ≠ some '.') :
    readDecimal? s cs =
      if ds = [] then none else (readExponent? rest).map (Decimal.ofParts s ds []) := by
  unfold readDecimal?
  rw [hspan]
  dsimp only
  split
  next => exact absurd rfl hpoint
  next => simp only [and_true]

/-- Digits with a point behind them. -/
theorem readDecimal?_of_point {ds more fs rest : List Char}
    (hspan : Digits.span cs = (ds, '.' :: more)) (hmore : Digits.span more = (fs, rest)) :
    readDecimal? s cs =
      if ds = [] ∧ fs = [] then none else (readExponent? rest).map (Decimal.ofParts s ds fs) := by
  unfold readDecimal?
  rw [hspan]
  simp only [hmore]

theorem readDecimal?_eq_some_iff {d : Decimal} :
    readDecimal? s cs = some d ↔ SpellsUnsigned s cs d := by
  constructor
  · intro h
    obtain ⟨ds, rest, hspan, rfl, hds⟩ := Digits.exists_span cs
    by_cases hpoint : rest.head? = some '.'
    · obtain ⟨more, rfl⟩ : ∃ more, rest = '.' :: more := by
        cases rest with
        | nil => cases hpoint
        | cons c more => exact ⟨more, by rw [Option.some.inj hpoint]⟩
      obtain ⟨fs, tail, hmore, rfl, hfs⟩ := Digits.exists_span more
      rw [readDecimal?_of_point hspan hmore, Option.ite_none_left_eq_some, Option.map_eq_some_iff]
        at h
      obtain ⟨hsome, power, hpower, rfl⟩ := h
      exact .pointed hsome hds hfs (readExponent?_eq_some_iff.mp hpower)
    · rw [readDecimal?_of_whole hspan hpoint, Option.ite_none_left_eq_some,
        Option.map_eq_some_iff] at h
      obtain ⟨hne, power, hpower, rfl⟩ := h
      exact .whole hne hds (readExponent?_eq_some_iff.mp hpower)
  · intro h
    cases h with
    | whole hne hds hpower =>
      have hspan := Digits.span_append hds fun c hc => (hpower.head hc).1
      rw [readDecimal?_of_whole hspan fun hc => (hpower.head hc).2 rfl, if_neg hne,
        readExponent?_eq_some_iff.mpr hpower, Option.map_some]
    | pointed hsome hds hfs hpower =>
      have hmore := Digits.span_append hfs fun c hc => (hpower.head hc).1
      have hpoint (more : List Char) (c : Char) (hc : ('.' :: more).head? = some c) :
          c.isDigit = false := Option.some.inj hc ▸ rfl
      rw [readDecimal?_of_point (Digits.span_append hds (hpoint _)) hmore, if_neg hsome,
        readExponent?_eq_some_iff.mpr hpower, Option.map_some]

/-! ## 3. Numbers -/

/-- The names of infinity and of the value that is no number, in any case of letters. -/
def IsName (cs : List Char) : Prop :=
  cs.map Char.toLower = ['i', 'n', 'f'] ∨
    cs.map Char.toLower = ['i', 'n', 'f', 'i', 'n', 'i', 't', 'y'] ∨
    cs.map Char.toLower = ['n', 'a', 'n']

/-- A name, with a sign in front or without. -/
inductive SpellsName : List Char → Prop
  | bare {cs : List Char} : IsName cs → SpellsName cs
  | signed {c : Char} {cs : List Char} : c = '+' ∨ c = '-' → IsName cs → SpellsName (c :: cs)

theorem toLower_of_isDigit {c : Char} (h : c.isDigit = true) : c.toLower = c := by
  unfold Char.toLower
  split
  next hupper =>
    have hdigit : c.toNat ≤ 57 := by
      unfold Char.isDigit at h
      simp only [Bool.and_eq_true, decide_eq_true_eq] at h
      exact UInt32.le_iff_toNat_le.mp h.2
    have hletter : 65 ≤ c.toNat := UInt32.le_iff_toNat_le.mp hupper.1
    omega
  next => rfl

/-- The first letter of a name. -/
theorem IsName.head (h : IsName cs) {c : Char} (hc : cs.head? = some c) :
    c.toLower = 'i' ∨ c.toLower = 'n' := by
  have hlower : (cs.map Char.toLower).head? = some c.toLower := by
    rw [List.head?_map, hc, Option.map_some]
  rcases h with h | h | h
  all_goals
    rw [h] at hlower
    have := Option.some.inj hlower
    simp [← this]

theorem not_isName {d : Decimal} (h : SpellsUnsigned s cs d) : ¬ IsName cs := by
  intro hname
  obtain ⟨c, hc, hdigit | rfl⟩ := h.head
  · have hlower := toLower_of_isDigit hdigit
    rcases hname.head hc with hi | hn
    · exact Digits.ne_of_isDigit hdigit rfl (hlower.symm.trans hi)
    · exact Digits.ne_of_isDigit hdigit rfl (hlower.symm.trans hn)
  · exact absurd (hname.head hc) (by decide)

theorem readUnsigned?_of_not_isName (h : ¬ IsName cs) :
    readUnsigned? s cs = (readDecimal? s cs).map Decimal.toBinary64 := by
  unfold IsName at h
  unfold readUnsigned?
  dsimp only
  rw [if_neg fun hinf => h (hinf.elim .inl fun hinf => .inr (.inl hinf)),
    if_neg fun hnan => h (.inr (.inr hnan))]

theorem readUnsigned?_of_spells {d : Decimal} (h : SpellsUnsigned s cs d) :
    readUnsigned? s cs = some d.toBinary64 := by
  rw [readUnsigned?_of_not_isName (not_isName h), readDecimal?_eq_some_iff.mpr h, Option.map_some]

theorem readUnsigned?_of_isName (s : Bool) (h : IsName cs) :
    ∃ x, readUnsigned? s cs = some x ∧ x.isFinite = false := by
  unfold readUnsigned?
  dsimp only
  by_cases hinf : cs.map Char.toLower = ['i', 'n', 'f'] ∨
      cs.map Char.toLower = ['i', 'n', 'f', 'i', 'n', 'i', 't', 'y']
  · rw [if_pos hinf]
    exact ⟨_, rfl, by cases s <;> decide⟩
  · have hnan : cs.map Char.toLower = ['n', 'a', 'n'] :=
      (or_assoc.mpr h).resolve_left hinf
    rw [if_neg hinf, if_pos hnan]
    exact ⟨_, rfl, by cases s <;> decide⟩

variable {t : String}

/-- A text without a sign in front is read as it stands. -/
theorem ofText?_bare (hminus : t.toList.head? ≠ some '-') (hplus : t.toList.head? ≠ some '+') :
    ofText? t = readUnsigned? false t.toList := by
  unfold ofText?
  split
  next heq => exact absurd (heq ▸ rfl) hminus
  next heq => exact absurd (heq ▸ rfl) hplus
  next => rfl

theorem ofText?_minus (h : t.toList = '-' :: cs) : ofText? t = readUnsigned? true cs := by
  unfold ofText?
  rw [h]
  rfl

theorem ofText?_plus (h : t.toList = '+' :: cs) : ofText? t = readUnsigned? false cs := by
  unfold ofText?
  rw [h]
  rfl

/-- A decimal is read as the number that it is rounded to. -/
theorem ofText?_of_spells {d : Decimal} (h : d.Spells t.toList) :
    ofText? t = some d.toBinary64 := by
  generalize ht : t.toList = cs at h
  cases h with
  | bare h =>
    obtain ⟨c, hc, hfirst⟩ := h.head
    have hsign {sign : Char} (hdigit : sign.isDigit = false) (hpoint : sign ≠ '.') :
        t.toList.head? ≠ some sign := by
      rw [ht, hc]
      rintro ⟨⟩
      exact hfirst.elim (fun h => Digits.ne_of_isDigit h hdigit rfl) hpoint
    rw [ofText?_bare (hsign rfl (by decide)) (hsign rfl (by decide)), ht]
    exact readUnsigned?_of_spells h
  | plus h => rw [ofText?_plus ht, readUnsigned?_of_spells h]
  | minus h => rw [ofText?_minus ht, readUnsigned?_of_spells h]

/-- A name is read as a number that is not finite. -/
theorem ofText?_of_names (h : SpellsName t.toList) :
    ∃ x, ofText? t = some x ∧ x.isFinite = false := by
  generalize ht : t.toList = cs at h
  cases h with
  | bare h =>
    have hsign {sign : Char} (hi : sign.toLower ≠ 'i') (hn : sign.toLower ≠ 'n') :
        t.toList.head? ≠ some sign := by
      rw [ht]
      exact fun hc => (h.head hc).elim hi hn
    rw [ofText?_bare (hsign (by decide) (by decide)) (hsign (by decide) (by decide)), ht]
    exact readUnsigned?_of_isName false h
  | signed hsign h =>
    rcases hsign with rfl | rfl
    · rw [ofText?_plus ht]
      exact readUnsigned?_of_isName false h
    · rw [ofText?_minus ht]
      exact readUnsigned?_of_isName true h

theorem spells_of_readUnsigned? {x : Binary64} (h : readUnsigned? s cs = some x) :
    (∃ d, SpellsUnsigned s cs d ∧ d.toBinary64 = x) ∨ IsName cs := by
  by_cases hname : IsName cs
  · exact .inr hname
  · rw [readUnsigned?_of_not_isName hname] at h
    obtain ⟨d, hd, hx⟩ := Option.map_eq_some_iff.mp h
    exact .inl ⟨d, readDecimal?_eq_some_iff.mp hd, hx⟩

/-- Nothing but decimals and names is read as a number. -/
theorem spells_of_ofText? {x : Binary64} (h : ofText? t = some x) :
    (∃ d : Decimal, d.Spells t.toList ∧ d.toBinary64 = x) ∨ SpellsName t.toList := by
  unfold ofText? at h
  split at h
  next cs ht =>
    rw [ht]
    rcases spells_of_readUnsigned? h with ⟨d, hd, hx⟩ | hname
    · exact .inl ⟨d, .minus hd, hx⟩
    · exact .inr (.signed (.inr rfl) hname)
  next cs ht =>
    rw [ht]
    rcases spells_of_readUnsigned? h with ⟨d, hd, hx⟩ | hname
    · exact .inl ⟨d, .plus hd, hx⟩
    · exact .inr (.signed (.inl rfl) hname)
  next =>
    rcases spells_of_readUnsigned? h with ⟨d, hd, hx⟩ | hname
    · exact .inl ⟨d, .bare hd, hx⟩
    · exact .inr (.bare hname)

end Binary64

/-! ## 4. Reading back -/

namespace NumberParts

theorem spellsPower_exponentText (e : Option Int) :
    Decimal.SpellsPower (exponentText e) (e.getD 0) := by
  cases e with
  | none => exact .none
  | some e =>
    refine .written (.inl rfl) ?_
    have hne := Digits.toDigits_ne_nil e.natAbs
    have hdigits : ∀ c ∈ Digits.toDigits e.natAbs, c.isDigit = true :=
      fun c hc => Digits.isDigit_of_mem_toDigits hc
    have hvalue := Digits.ofDigits_toDigits e.natAbs
    split
    next hneg =>
      have hminus := Digits.SpellsInt.minus hne hdigits
      rwa [hvalue, Int.ofNat_natAbs_of_nonpos (Int.le_of_lt hneg), Int.neg_neg] at hminus
    next hnonneg =>
      have hplus := Digits.SpellsInt.plus hne hdigits
      rwa [hvalue, Int.natAbs_of_nonneg (Int.not_lt.mp hnonneg)] at hplus

/-- The text of parts spells the decimal that they are the parts of. -/
theorem spells_text {p : NumberParts} (hp : p.Sound) (s : Bool) :
    Decimal.SpellsUnsigned s p.text (p.decimal s) := by
  have hpower := spellsPower_exponentText p.exponent
  unfold text decimal
  rw [List.append_assoc]
  cases hf : p.fraction with
  | nil => exact .whole hp.whole_ne_nil hp.isDigit_whole hpower
  | cons d ds =>
    have hfraction := hp.isDigit_fraction
    rw [hf] at hfraction
    exact .pointed (fun h => hp.whole_ne_nil h.1) hp.isDigit_whole hfraction hpower

end NumberParts

/-- A finite number is read back from its text. -/
theorem Binary64.ofText?_text {x : Binary64} (hx : x.isFinite = true) : ofText? x.text = some x := by
  have hrank : x.rank < infinityRank := of_decide_eq_true hx
  have hnan : ¬ x.isNaN = true := fun h => Nat.lt_asymm hrank (of_decide_eq_true h)
  have hinf : ¬ x.isInfinite = true := fun h => Nat.ne_of_lt hrank (of_decide_eq_true h)
  obtain ⟨p, htext, hsound, hvalue, -⟩ := NumberStyle.finite_parts plain hx
  have hspells : (p.decimal x.negative).Spells x.text.toList := by
    rw [text, if_neg hnan, if_neg hinf, String.toList_ofList, htext]
    cases x.negative with
    | true => exact .minus (NumberParts.spells_text hsound true)
    | false => exact .bare (NumberParts.spells_text hsound false)
  rw [ofText?_of_spells hspells, hvalue]

namespace Value

/-- A value that can be sent is read back from its text. -/
theorem parse_text {v : Value} (h : v.isEncodable = true) : parse v.kind v.text = .ok v := by
  cases v with
  | gauge x =>
    have hx : x.isFinite = true := h
    have hread : Binary64.ofText? (gauge x).text = some x := Binary64.ofText?_text hx
    unfold parse kind
    dsimp only
    rw [hread]
    exact if_pos hx
  | counter d => exact parse_text_counter d

/-! ## 5. All texts -/

theorem parse_gauge_eq_ok_iff {t : String} {v : Value} :
    parse .gauge t = .ok v ↔
      ∃ x, v = gauge x ∧ Binary64.ofText? t = some x ∧ x.isFinite = true := by
  unfold parse
  dsimp only
  cases Binary64.ofText? t with
  | none => exact ⟨fun h => (nomatch h), fun ⟨x, _, h, _⟩ => (nomatch h)⟩
  | some x =>
    dsimp only
    constructor
    · intro h
      split at h
      next hx =>
        obtain rfl := Except.ok.inj h
        exact ⟨x, rfl, rfl, hx⟩
      next => cases h
    · rintro ⟨y, rfl, hy, hx⟩
      obtain rfl := Option.some.inj hy
      exact if_pos hx

theorem ofInt?_eq_some_iff {i : Int} {d : Int64} : Counter.ofInt? i = some d ↔ d.toInt = i := by
  constructor
  · exact Counter.toInt_of_ofInt?
  · rintro rfl
    exact Counter.ofInt?_toInt d

theorem parse_counter_eq_ok_iff {t : String} {v : Value} :
    parse .counter t = .ok v ↔ ∃ d, v = counter d ∧ Digits.SpellsInt t.toList d.toInt := by
  have hread (d : Int64) : (Digits.readInt? t.toList).bind Counter.ofInt? = some d ↔
      Digits.SpellsInt t.toList d.toInt := by
    rw [Option.bind_eq_some_iff, ← Digits.readInt?_eq_some_iff]
    simp only [ofInt?_eq_some_iff, exists_eq_right']
  unfold parse
  simp only [← hread]
  cases (Digits.readInt? t.toList).bind Counter.ofInt? with
  | none => exact ⟨fun h => (nomatch h), fun ⟨d, _, h⟩ => (nomatch h)⟩
  | some d =>
    constructor
    · intro h
      obtain rfl := Except.ok.inj h
      exact ⟨d, rfl, rfl⟩
    · rintro ⟨e, rfl, he⟩
      rw [Option.some.inj he]

/-- What is said of a text that spells no value of a kind. -/
def badText : Kind → String → Cause
  | .gauge, t => .gaugeText t
  | .counter, t => .counterText t

theorem parse_error {kind : Kind} {t : String} {f : Failure} (h : parse kind t = .error f) :
    f = .invalid (badText kind t) := by
  unfold parse at h
  cases kind with
  | gauge =>
    dsimp only at h
    split at h
    next =>
      split at h
      next => cases h
      next => exact (Except.error.inj h).symm
    next => exact (Except.error.inj h).symm
  | counter =>
    dsimp only at h
    split at h
    next => cases h
    next => exact (Except.error.inj h).symm

theorem parse_refused {kind : Kind} {t : String} (h : ∀ v, parse kind t ≠ .ok v) :
    parse kind t = .error (.invalid (badText kind t)) := by
  cases hparse : parse kind t with
  | ok v => exact absurd hparse (h v)
  | error f => rw [parse_error hparse]

/-- A value that has been read is of the kind that was asked for, and can be sent. -/
theorem of_parse {kind : Kind} {t : String} {v : Value} (h : parse kind t = .ok v) :
    v.kind = kind ∧ v.isEncodable = true := by
  cases kind with
  | gauge =>
    obtain ⟨x, rfl, -, hx⟩ := parse_gauge_eq_ok_iff.mp h
    exact ⟨rfl, hx⟩
  | counter =>
    obtain ⟨d, rfl, -⟩ := parse_counter_eq_ok_iff.mp h
    exact ⟨rfl, rfl⟩

theorem isEncodable_of_parse {kind : Kind} {raw : String} {v : Value}
    (h : parse kind raw = .ok v) : v.isEncodable = true := (of_parse h).2

/-- A text is a gauge if it is a decimal with a nearest finite number, which is the reading. -/
theorem parse_gauge_iff_roundsTo {t : String} {x : Binary64} :
    parse .gauge t = .ok (gauge x) ↔ ∃ d : Decimal, d.Spells t.toList ∧ d.RoundsTo x := by
  simp only [Decimal.roundsTo_iff]
  constructor
  · intro h
    obtain ⟨y, hxy, hread, hfinite⟩ := parse_gauge_eq_ok_iff.mp h
    obtain rfl := Value.gauge.inj hxy
    rcases Binary64.spells_of_ofText? hread with ⟨d, hspells, rfl⟩ | hname
    · exact ⟨d, hspells, d.isFinite_toBinary64_iff.mp hfinite, rfl⟩
    · obtain ⟨y, hy, hinfinite⟩ := Binary64.ofText?_of_names hname
      obtain rfl := Option.some.inj (hread.symm.trans hy)
      exact Bool.noConfusion (hfinite.symm.trans hinfinite)
  · rintro ⟨d, hspells, hfits, rfl⟩
    exact parse_gauge_eq_ok_iff.mpr
      ⟨_, rfl, Binary64.ofText?_of_spells hspells, d.isFinite_toBinary64_iff.mpr hfits⟩

/-- A text that is read as a number which is not finite is refused. -/
theorem parse_gauge_of_not_finite {t : String} {x : Binary64} (h : Binary64.ofText? t = some x)
    (hx : x.isFinite = false) : parse .gauge t = .error (.invalid (.gaugeText t)) := by
  refine parse_refused fun v hv => ?_
  obtain ⟨y, -, hy, hfinite⟩ := parse_gauge_eq_ok_iff.mp hv
  obtain rfl := Option.some.inj (h.symm.trans hy)
  exact Bool.noConfusion (hfinite.symm.trans hx)

/-- The range of counters. -/
theorem exists_toInt_iff {p : Int → Prop} :
    (∃ d : Int64, p d.toInt) ↔ ∃ i, p i ∧ -2 ^ 63 ≤ i ∧ i < 2 ^ 63 := by
  constructor
  · rintro ⟨d, hd⟩
    exact ⟨d.toInt, hd, d.le_toInt, d.toInt_lt⟩
  · rintro ⟨i, hi, hlow, hhigh⟩
    refine ⟨.ofInt i, ?_⟩
    rwa [Int64.toInt_ofInt_of_le hlow hhigh]

/-- Every reading that is finite and every count is read back, bit for bit, from its text, and so is
every value that has been read from any text. A text is taken as a gauge exactly if it is a decimal
that has a nearest finite number, and that number is the reading; the names of infinity and of the
value that is no number are refused, and so are decimals that are too great and all other texts. A
text is taken as a counter exactly if it is a whole number, with a sign or without, in the range of
64 bits. -/
theorem texts_read_back :
    (∀ x : Binary64, x.isFinite = true → parse .gauge (gauge x).text = .ok (gauge x)) ∧
    (∀ d : Int64, parse .counter (counter d).text = .ok (counter d)) ∧
    (∀ kind t v, parse kind t = .ok v → v.kind = kind ∧ parse kind v.text = .ok v) ∧
    (∀ t v, parse .gauge t = .ok v → ∃ x, v = gauge x ∧ x.isFinite = true) ∧
    (∀ t x, parse .gauge t = .ok (gauge x) ↔ ∃ d : Decimal, d.Spells t.toList ∧ d.RoundsTo x) ∧
    (∀ t, (Binary64.SpellsName t.toList ∨ (∃ d : Decimal, d.Spells t.toList ∧ d.Overflows) ∨
        ∀ d : Decimal, ¬ d.Spells t.toList) →
      parse .gauge t = .error (.invalid (.gaugeText t))) ∧
    (∀ t d, parse .counter t = .ok (counter d) ↔ Digits.SpellsInt t.toList d.toInt) ∧
    (∀ t, (∃ v, parse .counter t = .ok v) ↔
      ∃ i, Digits.SpellsInt t.toList i ∧ -2 ^ 63 ≤ i ∧ i < 2 ^ 63) ∧
    ∀ t, (∀ v, parse .counter t ≠ .ok v) → parse .counter t = .error (.invalid (.counterText t)) := by
  refine ⟨fun x hx => parse_text (v := gauge x) hx, parse_text_counter, ?_, ?_,
    fun t x => parse_gauge_iff_roundsTo, ?_, ?_, ?_, fun t => parse_refused⟩
  · intro kind t v h
    obtain ⟨rfl, hencodable⟩ := of_parse h
    exact ⟨rfl, parse_text hencodable⟩
  · intro t v h
    obtain ⟨x, rfl, -, hx⟩ := parse_gauge_eq_ok_iff.mp h
    exact ⟨x, rfl, hx⟩
  · rintro t (hname | ⟨d, hspells, hover⟩ | hnone)
    · obtain ⟨x, hx, hinfinite⟩ := Binary64.ofText?_of_names hname
      exact parse_gauge_of_not_finite hx hinfinite
    · have hinfinite := Bool.eq_false_iff.mpr
        fun hfinite => d.isFinite_toBinary64_iff.mp hfinite hover
      exact parse_gauge_of_not_finite (Binary64.ofText?_of_spells hspells) hinfinite
    · refine parse_refused fun v hv => ?_
      obtain ⟨x, rfl, -⟩ := parse_gauge_eq_ok_iff.mp hv
      obtain ⟨d, hspells, -⟩ := parse_gauge_iff_roundsTo.mp hv
      exact hnone d hspells
  · intro t d
    rw [parse_counter_eq_ok_iff]
    exact ⟨fun ⟨e, he, hspells⟩ => Value.counter.inj he ▸ hspells, fun h => ⟨d, rfl, h⟩⟩
  · intro t
    rw [← exists_toInt_iff]
    simp only [parse_counter_eq_ok_iff]
    exact ⟨fun ⟨_, d, _, hspells⟩ => ⟨d, hspells⟩, fun ⟨d, hspells⟩ => ⟨_, d, rfl, hspells⟩⟩

/-- Minus zero, a text with a needless zero, a decimal that is too great, a name, and the counts at
the end of the range and behind it. -/
theorem texts_read_back_at_limits :
    parse .gauge "-0" = .ok (gauge ⟨0x8000000000000000⟩) ∧
    parse .gauge (gauge ⟨0x3ff8000000000000⟩).text = .ok (gauge ⟨0x3ff8000000000000⟩) ∧
    parse .gauge "2e308" = .error (.invalid (.gaugeText "2e308")) ∧
    parse .gauge "-Infinity" = .error (.invalid (.gaugeText "-Infinity")) ∧
    parse .counter "+9223372036854775807" = .ok (counter 9223372036854775807) ∧
    parse .counter "9223372036854775808" =
      .error (.invalid (.counterText "9223372036854775808")) := by
  obtain ⟨hgauge, -, hagain, -, -, hrefused, hcounter, hrange, hothers⟩ := texts_read_back
  refine ⟨hgauge ⟨0x8000000000000000⟩ (by decide), ?_, ?_, ?_, ?_, ?_⟩
  · exact (hagain .gauge "1.50" _ (by decide +kernel)).2
  · have hspells : (Decimal.ofParts false ['2'] [] 308).Spells "2e308".toList :=
      .bare (Binary64.readDecimal?_eq_some_iff.mp (by decide))
    exact hrefused "2e308" (.inr (.inl ⟨_, hspells, by decide +kernel⟩))
  · exact hrefused "-Infinity" (.inl (.signed (.inr rfl) (.inr (.inl (by decide)))))
  · exact (hcounter _ _).mpr (Digits.readInt?_eq_some_iff.mp (by decide))
  · refine hothers _ fun v hv => ?_
    obtain ⟨i, hspells, -, hhigh⟩ := (hrange _).mp ⟨v, hv⟩
    have hvalue := Digits.readInt?_eq_some_iff.mpr hspells
    have hread : Digits.readInt? "9223372036854775808".toList = some 9223372036854775808 := by
      decide
    obtain rfl := Option.some.inj (hread.symm.trans hvalue)
    exact absurd hhigh (by decide)

end Value
end Metering
