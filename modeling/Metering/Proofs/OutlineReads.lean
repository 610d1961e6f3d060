import Mathlib.Data.List.TakeWhile
import Metering.Proofs.JsonOutline

/-!
The outline of what is read.

Every reader that succeeds has taken bytes that the scanner of outlines admits, and it leaves the
scanner where a reader of its kind should: behind a value, or in front of one. A reader is followed
beside the scanner piece by piece, and where it fails nothing is to be shown. So a text that holds a
call has the outline of a single bracketed value.

Results:
1. `ScansOn`: a reader beside the scanner, with one rule for each piece of a reader.
2. `scans_textBody`, `scans_signedNumber`: texts and numbers.
3. `scans_skipValue`: values that are passed over.
4. `scans_value`, `scans_record`: documents and records.
5. `RpcCall.scan_of_decode`, `RpcCall.four_le_length_of_decode`: the outline of a call.
-/
namespace Metering

open JsonCursor (isBlank)

/-! ## 1. Readers beside the scanner -/

namespace JsonReader

open Outline

/-- Whatever the reader takes of a text that starts like this, the scanner admits, and it comes to
a point that has the property. -/
def ScansOn (s : Outline) (p : JsonReader α) (text : Bytes) (Q : α → Outline → Prop) : Prop :=
  ∀ c a c', c.rest = text → p c = .ok (a, c') →
    ∃ taken s', text = taken ++ c'.rest ∧ s.scan taken = some s' ∧ Q a s'

/-- The same for every text. -/
def Scans (s : Outline) (p : JsonReader α) (Q : α → Outline → Prop) : Prop :=
  ∀ text, ScansOn s p text Q

namespace ScansOn

variable {s t : Outline} {text : Bytes} {P : α → Outline → Prop} {Q : β → Outline → Prop}

theorem fails {p : JsonReader β} (h : Yields p fun _ => False) : ScansOn s p text Q :=
  fun c a c' _ hp => (h c a c' hp).elim

theorem pure {a : β} (h : Q a s) : ScansOn s (pure a) text Q := by
  intro c b c' hc hb
  obtain ⟨rfl, rfl⟩ := Prod.mk.inj (Except.ok.inj hb)
  exact ⟨[], s, hc.symm, rfl, h⟩

theorem mono {p : JsonReader α} {P' : α → Outline → Prop} (hp : ScansOn s p text P)
    (h : ∀ a s', P a s' → P' a s') : ScansOn s p text P' := by
  intro c a c' hc ha
  obtain ⟨taken, s', htext, hscan, hP⟩ := hp c a c' hc ha
  exact ⟨taken, s', htext, hscan, h a s' hP⟩

theorem bind {p : JsonReader α} {f : α → JsonReader β} (hp : ScansOn s p text P)
    (hf : ∀ a s' rest, rest <:+ text → P a s' → ScansOn s' (f a) rest Q) :
    ScansOn s (p >>= f) text Q := by
  intro c b c' hc hb
  obtain ⟨⟨a, c₁⟩, ha, hfa⟩ := Chaining.ok_of_bind hb
  obtain ⟨taken, s₁, htext, hscan, hP⟩ := hp c a c₁ hc ha
  obtain ⟨more, s₂, hrest, hscan₂, hQ⟩ := hf a s₁ c₁.rest ⟨taken, htext.symm⟩ hP c₁ b c' rfl hfa
  refine ⟨taken ++ more, s₂, ?_, ?_, hQ⟩
  · rw [htext, hrest, List.append_assoc]
  · rw [scan_append_of hscan, hscan₂]

theorem map {p : JsonReader α} {f : α → β} (hp : ScansOn s p text fun a s' => Q (f a) s') :
    ScansOn s (f <$> p) text Q := by
  intro c b c' hc hb
  obtain ⟨⟨a, c₁⟩, ha, hfa⟩ := Chaining.ok_of_bind (x := p c) hb
  obtain ⟨rfl, rfl⟩ := Prod.mk.inj (Except.ok.inj hfa)
  exact hp c a _ hc ha

theorem peek {f : Option UInt8 → JsonReader β} (hf : ScansOn s (f text.head?) text Q) :
    ScansOn s (JsonReader.peek >>= f) text Q := by
  rintro c b c' rfl hb
  exact hf c b c' rfl hb

theorem steps {f : Bytes → JsonReader β} (hf : ScansOn s (f (0 :: text)) text Q) :
    ScansOn s (JsonReader.steps >>= f) text Q := by
  rintro c b c' rfl hb
  exact hf c b c' rfl hb

theorem get {f : JsonCursor → JsonReader β} (hf : ∀ c, ScansOn s (f c) text Q) :
    ScansOn s (get >>= f) text Q := by
  rintro c b c' rfl hb
  exact hf c c b c' rfl hb

theorem bump_last {b : UInt8} {Q : Unit → Outline → Prop} (hb : s.step b = some t)
    (h : Q () t) : ScansOn s JsonReader.bump (b :: text) Q := by
  intro c a c' hc ha
  obtain ⟨-, rfl⟩ := Prod.mk.inj (Except.ok.inj ha)
  refine ⟨[b], t, ?_, scan_cons hb [], h⟩
  rw [Reads.next_rest, hc]
  rfl

theorem bump {f : Unit → JsonReader β} {b : UInt8} (hb : s.step b = some t)
    (hf : ScansOn t (f ()) text Q) : ScansOn s (JsonReader.bump >>= f) (b :: text) Q := by
  intro c a c' hc ha
  have hrest : c.next.rest = text := by
    rw [Reads.next_rest, hc]
    rfl
  obtain ⟨taken, s'', htext, hscan, hQ⟩ := hf c.next a c' hrest ha
  exact ⟨b :: taken, s'', congrArg _ htext, (scan_cons hb taken).trans hscan, hQ⟩

/-- A byte that a reader has looked at is taken. -/
theorem take {f : Unit → JsonReader β} {b : UInt8} (h : text.head? = some b)
    (hb : s.step b = some t) (hf : Scans t (f ()) Q) :
    ScansOn s (JsonReader.bump >>= f) text Q := by
  obtain ⟨rest, rfl⟩ := List.head?_eq_some_iff.mp h
  exact bump hb (hf rest)

theorem take_last {b : UInt8} {Q : Unit → Outline → Prop} (h : text.head? = some b)
    (hb : s.step b = some t) (hQ : Q () t) : ScansOn s JsonReader.bump text Q := by
  obtain ⟨rest, rfl⟩ := List.head?_eq_some_iff.mp h
  exact bump_last hb hQ

/-- A look past the blanks. -/
theorem peekToken {f : Option UInt8 → JsonReader β} (hs : s.Rests)
    (hf : ∀ rest, rest <:+ text → ScansOn s (f rest.head?) rest Q) :
    ScansOn s (JsonReader.peekToken >>= f) text Q := by
  rintro c b c' rfl hb
  have hsplit : c.rest.takeWhile isBlank ++ c.skipBlanks.rest = c.rest := by
    rw [Reads.skipBlanks_rest]
    exact List.takeWhile_append_dropWhile
  obtain ⟨taken, s', htext, hscan, hQ⟩ := hf c.skipBlanks.rest ⟨_, hsplit⟩ c.skipBlanks b c' rfl hb
  -- The blanks were taken as well, and the scanner rests on them.
  have hblanks : s.scan (c.rest.takeWhile isBlank) = some s :=
    scan_of_forall fun x hx => hs x (List.mem_takeWhile_imp hx)
  refine ⟨c.rest.takeWhile isBlank ++ taken, s', ?_, ?_, hQ⟩
  · rw [List.append_assoc, ← htext, hsplit]
  · rw [scan_append_of hblanks, hscan]

/-- The value that must follow. -/
theorem start {f : UInt8 → JsonReader β} (hs : s.Rests)
    (hf : ∀ b rest, b :: rest <:+ text → ScansOn s (f b) (b :: rest) Q) :
    ScansOn s (JsonReader.start >>= f) text Q := by
  unfold JsonReader.start
  rw [bind_assoc]
  refine peekToken hs fun rest hrest => ?_
  cases rest with
  | nil => exact fails (.bind (P := fun _ => False) (.failAhead _) fun _ h => h.elim)
  | cons b rest => exact hf b rest hrest

theorem run {p : JsonReader α} (hp : ScansOn s p text P) {a : α} (h : JsonReader.run p text = .ok a)
    (hrests : ∀ s', P a s' → s'.Rests) : ∃ s', s.scan text = some s' ∧ P a s' := by
  unfold JsonReader.run at h
  split at h
  next => cases h
  next a' c' hread =>
    dsimp only at h
    split at h
    next hnil =>
      obtain rfl := Except.ok.inj h
      obtain ⟨taken, s', htext, hscan, hP⟩ := hp _ _ _ rfl hread
      refine ⟨s', ?_, hP⟩
      rw [htext, scan_append_of hscan]
      rw [Reads.skipBlanks_rest, List.dropWhile_eq_nil_iff] at hnil
      exact scan_of_forall fun x hx => hrests s' hP x (hnil x hx)
    next => cases h

end ScansOn

/-! ## 2. Words, texts and numbers -/

section
variable {depth : Nat}

theorem scans_word {letters : Bytes} (h : ∀ x ∈ letters, IsPlain x) :
    Scans (within depth .between) (word letters) fun _ s => s = within depth .between := by
  induction letters with
  | nil => exact fun _ => .pure rfl
  | cons x letters ih =>
    obtain ⟨hx, hletters⟩ := List.forall_mem_cons.mp h
    intro text
    refine .peek ?_
    cases text with
    | nil => exact .fails (.failHere _)
    | cons b rest =>
      by_cases hb : b = x
      · refine .bump (hb ▸ hx.step depth) ?_
        rw [if_pos hb]
        exact ih hletters rest
      · refine .fails (.after fun _ => ?_)
        rw [if_neg hb]
        exact .failHere _

theorem mem_of_hexValue {ds : Bytes} {n : Nat} (h : hexValue? ds = some n) :
    ∀ b ∈ ds, (Hex.value? (Char.ofNat b.toNat)).isSome := by
  induction ds generalizing n with
  | nil => exact List.forall_mem_nil _
  | cons b ds ih =>
    rw [hexValue?] at h
    split at h
    next v rest hv hrest =>
      exact List.forall_mem_cons.mpr ⟨Option.isSome_of_eq_some hv, ih hrest⟩
    next => cases h

theorem step_inText_of_hex {b : UInt8} (h : (Hex.value? (Char.ofNat b.toNat)).isSome) :
    (within depth .inText).step b = some (within depth .inText) := by
  have hall : ∀ b : UInt8, (Hex.value? (Char.ofNat b.toNat)).isSome →
      b ≠ 0x22 ∧ b ≠ 0x5c ∧ 0x20 ≤ b := Bytes.forall_byte (by decide +kernel)
  simp [Outline.step, hall b h]

theorem scans_hexEscape :
    Scans (within depth .inText) hexEscape fun _ s => s = within depth .inText := by
  rintro text c n c' rfl hn
  unfold hexEscape at hn
  dsimp only at hn
  split at hn
  next => cases hn
  next hfour =>
    split at hn
    next v hvalue =>
      obtain ⟨-, rfl⟩ := Prod.mk.inj (Except.ok.inj hn)
      refine ⟨c.rest.take 4, _, ?_, ?_, rfl⟩
      · have hlength : (c.rest.take 4).length = 4 :=
          Nat.le_antisymm (List.length_take_le 4 c.rest) (Nat.not_lt.mp hfour)
        rw [Reads.advance_rest, hlength]
        exact (List.take_append_drop 4 c.rest).symm
      · exact scan_of_forall fun b hb => step_inText_of_hex (mem_of_hexValue hvalue b hb)
    next => cases hn

theorem scansOn_follows {s t : Outline} {b : UInt8} {k : JsonReader α}
    {Q : α → Outline → Prop} (hb : s.step b = some t) (hk : Scans t k Q) (reason : JsonReason)
    (text : Bytes) :
    ScansOn s (follows b >>= fun is => if !is then failHere reason else k) text Q := by
  unfold follows
  rw [bind_assoc]
  refine .peek ?_
  cases text with
  | nil => exact .fails (.bind (P := fun _ => False) (.failHere _) fun _ h => h.elim)
  | cons x rest =>
    show ScansOn s ((bump >>= fun _ => pure (x == b)) >>= _) (x :: rest) Q
    rw [bind_assoc]
    by_cases hx : x = b
    · subst hx
      refine .bump hb ?_
      rw [beq_self_eq_true, pure_bind]
      exact hk rest
    · refine .fails (.after fun _ => ?_)
      rw [beq_eq_false_iff_ne.mpr hx, pure_bind]
      exact .failHere _

theorem scans_unicodeEscape :
    Scans (within depth .inText) unicodeEscape fun _ s => s = within depth .inText := by
  intro text
  unfold unicodeEscape
  refine (scans_hexEscape text).bind fun n s rest _ hs => ?_
  subst hs
  split
  next => exact .fails (.failHere _)
  next =>
    split
    next => exact .pure rfl
    next =>
      refine scansOn_follows (t := within depth .inEscape) rfl (fun rest => ?_) _ _
      refine scansOn_follows (t := within depth .inText) rfl (fun rest => ?_) _ _
      refine (scans_hexEscape rest).bind fun m s rest _ hs => ?_
      subst hs
      split
      next => exact .fails (.failHere _)
      next => exact .pure rfl

theorem step_inEscape {b : UInt8} (h : b = 0x75 ∨ (shortEscape? b).isSome) :
    (within depth .inEscape).step b = some (within depth .inText) := if_pos h

theorem scans_escape :
    Scans (within depth .inEscape) escape fun _ s => s = within depth .inText := by
  intro text
  refine .peek ?_
  cases text with
  | nil => exact .fails (.failHere _)
  | cons b rest =>
    by_cases hu : b = 0x75
    · refine .bump (step_inEscape (.inl hu)) ?_
      rw [if_pos hu]
      exact scans_unicodeEscape rest
    · cases hshort : shortEscape? b with
      | some x =>
        refine .bump (step_inEscape (.inr (Option.isSome_of_eq_some hshort))) ?_
        simp only [hu, if_false, hshort]
        exact .pure rfl
      | none =>
        refine .fails (.after fun _ => ?_)
        simp only [hu, if_false, hshort]
        exact .failHere _

theorem scans_textBytes (fuel : Bytes) :
    Scans (within depth .inText) (textBytes fuel) fun _ s => s = within depth .behindText := by
  induction fuel with
  | nil => exact fun _ => .fails (.failHere _)
  | cons _ fuel ih =>
    intro text
    refine .peek ?_
    cases text with
    | nil => exact .fails (.failHere _)
    | cons b rest =>
      by_cases hquote : b = 0x22
      · subst hquote
        exact .bump (t := within depth .behindText) rfl (.pure rfl)
      · by_cases hslash : b = 0x5c
        · subst hslash
          refine .bump (t := within depth .inEscape) rfl ?_
          refine (scans_escape rest).bind fun head s rest' _ hs => ?_
          subst hs
          exact (ih rest').bind fun tail s _ _ hs => .pure hs
        · by_cases hlow : b < 0x20
          · refine .fails (.after fun _ => ?_)
            simp only [hquote, hslash, hlow, if_true, if_false]
            exact .failHere _
          · refine .bump (step_inText hquote hslash hlow) ?_
            simp only [hquote, hslash, hlow, if_false]
            exact (ih rest).bind fun tail s _ _ hs => .pure hs

/-- A text is read up to its closing quote. -/
theorem scans_textBody :
    Scans (within depth .inText) textBody fun _ s => s = within depth .behindText := by
  intro text
  refine .get fun opening => .steps ?_
  refine (scans_textBytes _ text).bind fun b s rest _ hs => ?_
  subst hs
  split
  next => exact .pure rfl
  next => exact .fails (.after fun _ => .after fun _ => .failAhead _)

theorem scans_digits :
    Scans (within depth .between) digits fun _ s => s = within depth .between := by
  rintro text c ds c' rfl h
  obtain ⟨rfl, rfl⟩ := Prod.mk.inj (Except.ok.inj h)
  refine ⟨c.rest.takeWhile isDigit, _, ?_, ?_, rfl⟩
  · rw [Reads.advance_rest, HeadRuns.drop_length_takeWhile]
    exact List.takeWhile_append_dropWhile.symm
  · exact scan_of_forall fun b hb => (isPlain_of_isDigit (List.mem_takeWhile_imp hb)).step depth

theorem scans_rounded (s : Spelled) (power : Int) :
    Scans (within depth .between) (rounded s power) fun _ s => s = within depth .between := by
  intro text
  unfold rounded
  dsimp only
  split
  next => exact .pure rfl
  next => exact .fails (.failHere _)

theorem scansOn_exponent (s : Spelled) {b : UInt8} {text : Bytes} (h : text.head? = some b)
    (hb : IsPlain b) : ScansOn (within depth .between) (exponent s) text fun _ s =>
      s = within depth .between := by
  unfold exponent
  refine .take h (hb.step depth) fun rest => .peek ?_
  extract_lets power
  have hpower : ∀ positive, Scans (within depth .between) (power positive) fun _ s =>
      s = within depth .between := by
    intro positive text
    refine .peek ?_
    cases text with
    | nil => exact .fails (.failHere _)
    | cons b rest =>
      show ScansOn _ (if !isDigit b then _ else _) _ _
      split
      next => exact .fails (.after fun _ => .failHere _)
      next =>
        refine .get fun c => (scans_digits _).bind fun ds s rest' _ hs => ?_
        subst hs
        split
        next =>
          split
          next => exact .fails (.after fun _ => .failHere _)
          next => exact .pure rfl
        next => exact scans_rounded _ _ rest'
  split
  next h => exact .take (t := within depth .between) h rfl (hpower true)
  next h => exact .take (t := within depth .between) h rfl (hpower false)
  next => exact hpower true rest

theorem scans_afterWhole (negative : Bool) (whole : Nat) :
    Scans (within depth .between) (afterWhole negative whole) fun _ s =>
      s = within depth .between := by
  intro text
  unfold afterWhole
  refine .peek ?_
  split
  next h =>
    refine .take (t := within depth .between) h rfl fun rest => ?_
    refine (scans_digits rest).bind fun ds s rest' _ hs => ?_
    subst hs
    refine .peek ?_
    split
    next =>
      split
      next => exact .fails (.failAhead _)
      next => exact .fails (.failAhead _)
    next =>
      dsimp only
      split
      next h => exact scansOn_exponent _ h (by decide)
      next h => exact scansOn_exponent _ h (by decide)
      next => exact scans_rounded _ _ _
  next h => exact scansOn_exponent _ h (by decide)
  next h => exact scansOn_exponent _ h (by decide)
  next =>
    split
    next =>
      split
      next => exact scans_rounded _ _ _
      next => exact .pure rfl
    next =>
      split
      next => exact .pure rfl
      next => exact scans_rounded _ _ _

theorem scans_number (negative : Bool) :
    Scans (within depth .between) (number negative) fun _ s => s = within depth .between := by
  intro text
  unfold number
  refine .peek ?_
  cases text with
  | nil => exact .fails (.failHere _)
  | cons b rest =>
    by_cases hzero : b = 0x30
    · subst hzero
      refine .bump (t := within depth .between) rfl (.peek ?_)
      split
      next =>
        split
        next => exact .fails (.failAhead _)
        next => exact scans_afterWhole _ _ rest
      next => exact scans_afterWhole _ _ rest
    · show ScansOn _ (if b = 0x30 then _ else if isDigit b then _ else _) _ _
      rw [if_neg hzero]
      split
      next =>
        refine (scans_digits _).bind fun ds s rest' _ hs => ?_
        subst hs
        exact scans_afterWhole _ _ rest'
      next => exact .fails (.after fun _ => .failHere _)

/-- A number is read as plain bytes. -/
theorem scans_signedNumber :
    Scans (within depth .between) signedNumber fun _ s => s = within depth .between := by
  intro text
  unfold signedNumber
  refine .peek ?_
  split
  next h => exact .take (t := within depth .between) h rfl (scans_number true)
  next => exact scans_number false text

/-! ## 3. Values that are passed over -/

theorem scans_skipEscape :
    Scans (within depth .inEscape) skipEscape fun _ s => s = within depth .inText := by
  intro text
  refine .peek ?_
  cases text with
  | nil => exact .fails (.failHere _)
  | cons b rest =>
    by_cases hu : b = 0x75
    · refine .bump (step_inEscape (.inl hu)) ?_
      rw [if_pos hu]
      exact .map (scans_hexEscape rest)
    · by_cases hshort : (shortEscape? b).isSome
      · refine .bump (step_inEscape (.inr hshort)) ?_
        rw [if_neg hu, if_pos hshort]
        exact .pure rfl
      · refine .fails (.after fun _ => ?_)
        rw [if_neg hu, if_neg hshort]
        exact .failHere _

theorem scans_skipTextBytes (fuel : Bytes) :
    Scans (within depth .inText) (skipTextBytes fuel) fun _ s => s = within depth .behindText := by
  induction fuel with
  | nil => exact fun _ => .fails (.failHere _)
  | cons _ fuel ih =>
    intro text
    refine .peek ?_
    cases text with
    | nil => exact .fails (.failHere _)
    | cons b rest =>
      show ScansOn _ (if b = 0x22 then _ else if b = 0x5c then _ else _) _ _
      split
      next hquote =>
        subst hquote
        exact .bump_last rfl rfl
      next hquote =>
        split
        next hslash =>
          subst hslash
          refine .bump (t := within depth .inEscape) rfl ?_
          refine (scans_skipEscape rest).bind fun _ s rest' _ hs => ?_
          subst hs
          exact ih rest'
        next hslash =>
          split
          next => exact .fails (.failHere _)
          next hlow => exact .bump (step_inText hquote hslash hlow) (ih rest)

theorem scans_skipText :
    Scans (within depth .inText) skipText fun _ s => s = within depth .behindText :=
  fun text => .steps (scans_skipTextBytes _ text)

theorem scansOn_skipExponent {b : UInt8} {text : Bytes} (h : text.head? = some b)
    (hb : IsPlain b) : ScansOn (within depth .between) skipExponent text fun _ s =>
      s = within depth .between := by
  unfold skipExponent
  refine .take h (hb.step depth) fun rest => .peek ?_
  extract_lets power
  have hpower : Scans (within depth .between) (power ()) fun _ s => s = within depth .between := by
    intro text
    refine .peek ?_
    cases text with
    | nil => exact .fails (.failHere _)
    | cons b rest =>
      by_cases hb : isDigit b
      · refine .bump ((isPlain_of_isDigit hb).step depth) ?_
        rw [if_pos hb]
        exact .map (scans_digits rest)
      · refine .fails (.after fun _ => ?_)
        rw [if_neg hb]
        exact .failHere _
  split
  next h => exact .take (t := within depth .between) h rfl hpower
  next h => exact .take (t := within depth .between) h rfl hpower
  next => exact hpower rest

theorem scans_skipAfterWhole :
    Scans (within depth .between) skipAfterWhole fun _ s => s = within depth .between := by
  intro text
  unfold skipAfterWhole
  refine .peek ?_
  split
  next h =>
    refine .take (t := within depth .between) h rfl fun rest => ?_
    refine (scans_digits rest).bind fun ds s rest' _ hs => ?_
    subst hs
    split
    next => exact .fails (.failAhead _)
    next =>
      refine .peek ?_
      split
      next h => exact scansOn_skipExponent h (by decide)
      next h => exact scansOn_skipExponent h (by decide)
      next => exact .pure rfl
  next h => exact scansOn_skipExponent h (by decide)
  next h => exact scansOn_skipExponent h (by decide)
  next => exact .pure rfl

theorem scans_skipNumber :
    Scans (within depth .between) skipNumber fun _ s => s = within depth .between := by
  intro text
  unfold skipNumber
  refine .peek ?_
  cases text with
  | nil => exact .fails (.failHere _)
  | cons b rest =>
    by_cases hzero : b = 0x30
    · subst hzero
      refine .bump (t := within depth .between) rfl (.peek ?_)
      split
      next =>
        split
        next => exact .fails (.failAhead _)
        next => exact scans_skipAfterWhole rest
      next => exact scans_skipAfterWhole rest
    · show ScansOn _ (if b = 0x30 then _ else if isDigit b then _ else _) _ _
      rw [if_neg hzero]
      split
      next =>
        refine .bind (P := fun _ s => s = within depth .between) (.map (scans_digits _))
          fun _ s rest' _ hs => ?_
        subst hs
        exact scans_skipAfterWhole rest'
      next => exact .fails (.after fun _ => .failHere _)

theorem isPlain_letters :
    (∀ x ∈ ([0x75, 0x6c, 0x6c] : Bytes), IsPlain x) ∧
      (∀ x ∈ ([0x72, 0x75, 0x65] : Bytes), IsPlain x) ∧
      ∀ x ∈ ([0x61, 0x6c, 0x73, 0x65] : Bytes), IsPlain x := by decide +kernel

/-- A value starts: it is behind the scanner, or its bracket is open. -/
theorem scans_skipStart :
    Scans (within depth .between) skipStart fun started s => match started with
      | none => Settled depth s
      | some _ => s = within (depth + 1) .between := by
  intro text
  have hwhole : ∀ {p : JsonReader Unit} {place : OutlinePlace},
      (place = .between ∨ place = .behindText) →
      ∀ {s : Outline}, Scans s p (fun _ s' => s' = within depth place) →
      Scans s (p >>= fun _ => pure none) fun (started : Option Bracket) s =>
        match started with
        | none => Settled depth s
        | some _ => s = within (depth + 1) .between := by
    intro p place hplace s hp rest
    refine (hp rest).bind fun _ s' rest' _ hs => .pure ?_
    rcases hplace with rfl | rfl
    · exact .inl hs
    · exact .inr hs
  unfold skipStart
  refine .peekToken (rests_between depth) fun rest _ => ?_
  split
  next => exact .fails (.failAhead _)
  next h =>
    exact .take (t := within depth .between) h rfl
      (hwhole (.inl rfl) (scans_word isPlain_letters.1))
  next h =>
    exact .take (t := within depth .between) h rfl
      (hwhole (.inl rfl) (scans_word isPlain_letters.2.1))
  next h =>
    exact .take (t := within depth .between) h rfl
      (hwhole (.inl rfl) (scans_word isPlain_letters.2.2))
  next h => exact .take (t := within depth .between) h rfl (hwhole (.inl rfl) scans_skipNumber)
  next h => exact .take (t := within depth .inText) h rfl (hwhole (.inr rfl) scans_skipText)
  next h => exact .take (t := within (depth + 1) .between) h rfl fun _ => .pure rfl
  next h => exact .take (t := within (depth + 1) .between) h rfl fun _ => .pure rfl
  next =>
    split
    next => exact hwhole (.inl rfl) scans_skipNumber rest
    next => exact .fails (.failAhead _)

theorem closing_cases (frame : Bracket) : frame.closing = 0x5d ∨ frame.closing = 0x7d := by
  cases frame with
  | list => exact .inl rfl
  | object => exact .inr rfl

/-- Behind a value, and if there is to be another one, in front of it. -/
def Awaits (depth : Nat) (more : Prop) (s : Outline) : Prop :=
  Settled depth s ∧ (more → s = within depth .between)

theorem awaits_between (depth : Nat) (more : Prop) : Awaits depth more (within depth .between) :=
  ⟨settled_between depth, fun _ => rfl⟩

theorem scans_skipClosings (opened : List Bracket) (afterItem : Bool) {s : Outline}
    (hs : Awaits (depth + opened.length) (afterItem = false) s) :
    Scans s (skipClosings opened afterItem) fun still s' =>
      Awaits (depth + still.length) (still ≠ []) s' := by
  induction opened generalizing afterItem s with
  | nil => exact fun _ => .pure ⟨hs.1, fun h => absurd rfl h⟩
  | cons frame outer ih =>
    intro text
    unfold skipClosings
    refine .peekToken hs.1.rests fun rest _ => ?_
    cases rest with
    | nil => exact .fails (.failAhead _)
    | cons b rest =>
      show ScansOn _ (if b = 0x2c ∧ afterItem then _ else if b = frame.closing then _ else _) _ _
      split
      next hcomma =>
        rw [hcomma.1]
        exact .bump hs.1.step_comma (.pure (awaits_between _ _))
      next =>
        split
        next hclosing =>
          refine .bump (hs.1.step_closing (hclosing ▸ closing_cases frame)) ?_
          exact ih true (awaits_between _ _) rest
        next =>
          split
          next => exact .fails (.failAhead _)
          next hitem => exact .pure ⟨hs.1, fun _ => hs.2 (eq_false_of_ne_true hitem)⟩

theorem scans_skipKey :
    Scans (within depth .between) skipKey fun _ s => s = within depth .between := by
  intro text
  unfold skipKey
  refine .peekToken (rests_between depth) fun rest _ => ?_
  split
  next => exact .fails (.failAhead _)
  next h =>
    refine .take (t := within depth .inText) h rfl fun rest => ?_
    refine (scans_skipText rest).bind fun _ s rest' _ hs => ?_
    subst hs
    refine .peekToken (rests_behindText depth) fun rest _ => ?_
    split
    next => exact .fails (.failAhead _)
    next h => exact .take_last h rfl rfl
    next => exact .fails (.failAhead _)
  next => exact .fails (.failAhead _)

theorem scans_skipLoop (fuel : Bytes) (opened : List Bracket) :
    Scans (within (depth + opened.length) .between) (skipLoop fuel opened) fun _ s =>
      Settled depth s := by
  induction fuel generalizing opened with
  | nil => exact fun _ => .fails (.failAhead _)
  | cons _ fuel ih =>
    intro text
    unfold skipLoop
    refine (scans_skipStart text).bind fun started s rest _ hs => ?_
    extract_lets goOn
    -- Whether another value follows depends on the brackets that are still open.
    have hgoOn : ∀ still s' rest', Awaits (depth + still.length) (still ≠ []) s' →
        ScansOn s' (goOn still) rest' fun _ s => Settled depth s := by
      intro still s' rest' hstill
      cases still with
      | nil => exact .pure hstill.1
      | cons frame outer =>
        obtain rfl := hstill.2 (List.cons_ne_nil _ _)
        dsimp only [goOn]
        split
        next =>
          refine (scans_skipKey rest').bind fun _ s rest'' _ hs => ?_
          subst hs
          exact ih (frame :: outer) rest''
        next => exact ih (frame :: outer) rest'
    cases started with
    | none =>
      exact (scans_skipClosings opened true ⟨hs, fun h => nomatch h⟩ rest).bind
        fun still s' rest' _ => hgoOn still s' rest'
    | some frame =>
      subst hs
      exact (scans_skipClosings (frame :: opened) false (awaits_between _ _) rest).bind
        fun still s' rest' _ => hgoOn still s' rest'

/-- A value that is passed over. -/
theorem scans_skipValue :
    Scans (within depth .between) skipValue fun _ s => Settled depth s :=
  fun text => .steps (scans_skipLoop _ [] text)

/-! ## 4. Documents and records -/

theorem scans_moreItems (first : Bool) {s : Outline} (hs : Awaits depth (first = true) s) :
    Scans s (moreItems first) fun more s' => Awaits depth (more = true) s' := by
  intro text
  unfold moreItems
  refine .peekToken hs.1.rests fun rest _ => ?_
  split
  next => exact .fails (.failAhead _)
  next => exact .pure ⟨hs.1, fun h => nomatch h⟩
  next b _ hb =>
    split
    next hfirst => exact .pure ⟨hs.1, fun _ => hs.2 hfirst⟩
    next =>
      split
      next hcomma =>
        subst hcomma
        refine .take hb hs.1.step_comma fun text =>
          .peekToken (rests_between depth) fun rest _ => ?_
        split
        next => exact .fails (.failAhead _)
        next => exact .fails (.failAhead _)
        next => exact .pure (awaits_between _ _)
      next => exact .fails (.failAhead _)

theorem scans_closeList {s : Outline} (hs : Settled depth s) :
    Scans s closeList fun _ s' => s' = close depth := by
  intro text
  unfold closeList
  refine .peekToken hs.rests fun rest _ => ?_
  split
  next => exact .fails (.failAhead _)
  next h => exact .take_last h (hs.step_closing (.inl rfl)) rfl
  next =>
    refine .fails (.after fun _ => .after fun b => ?_)
    split
    next => exact .failAhead _
    next => exact .failAhead _
  next => exact .fails (.failAhead _)

theorem scans_moreMembers (first : Bool) {s : Outline} (hs : Awaits depth (first = true) s) :
    Scans s (moreMembers first) fun more s' =>
      if more then s' = within depth .inText else Settled depth s' := by
  intro text
  unfold moreMembers
  refine .peekToken hs.1.rests fun rest _ => ?_
  split
  next => exact .fails (.failAhead _)
  next => exact .pure hs.1
  next b _ hb =>
    split
    next hfirst =>
      obtain rfl := hs.2 hfirst
      split
      next hquote =>
        subst hquote
        exact .take (t := within depth .inText) hb rfl fun _ => .pure rfl
      next => exact .fails (.failAhead _)
    next =>
      split
      next hcomma =>
        subst hcomma
        refine .take hb hs.1.step_comma fun text =>
          .peekToken (rests_between depth) fun rest _ => ?_
        split
        next => exact .fails (.failAhead _)
        next h => exact .take (t := within depth .inText) h rfl fun _ => .pure rfl
        next => exact .fails (.failAhead _)
        next => exact .fails (.failAhead _)
      next => exact .fails (.failAhead _)

theorem scans_closeObject {s : Outline} (hs : Settled depth s) :
    Scans s closeObject fun _ s' => s' = close depth := by
  intro text
  unfold closeObject
  refine .peekToken hs.rests fun rest _ => ?_
  split
  next => exact .fails (.failAhead _)
  next h => exact .take_last h (hs.step_closing (.inr rfl)) rfl
  next => exact .fails (.failAhead _)
  next => exact .fails (.failAhead _)

theorem scans_colon :
    Scans (within depth .behindText) colon fun _ s => s = within depth .between := by
  intro text
  unfold colon
  refine .peekToken (rests_behindText depth) fun rest _ => ?_
  split
  next => exact .fails (.failAhead _)
  next h => exact .take_last h rfl rfl
  next => exact .fails (.failAhead _)

theorem scans_items {item : JsonReader α}
    (hitem : Scans (within depth .between) item fun _ s => Settled depth s) (fuel : Bytes)
    (first : Bool) {s : Outline} (hs : Awaits depth (first = true) s) :
    Scans s (items item fuel first) fun _ s' => Settled depth s' := by
  induction fuel generalizing first s with
  | nil => exact fun _ => .fails (.failAhead _)
  | cons _ fuel ih =>
    intro text
    unfold items
    refine (scans_moreItems first hs text).bind fun more s rest _ hmore => ?_
    split
    next hgoOn =>
      obtain rfl := hmore.2 hgoOn
      refine (hitem rest).bind fun head s rest' _ hs => ?_
      have hmore : Awaits depth (false = true) s := ⟨hs, fun h => absurd h Bool.false_ne_true⟩
      exact (ih false hmore rest').bind fun tail s _ _ hs => .pure hs
    next => exact .pure hmore.1

theorem scans_members {step : σ → String → JsonReader σ}
    (hstep : ∀ acc key, Scans (within depth .behindText) (step acc key) fun _ s => Settled depth s)
    (fuel : Bytes) (first : Bool) (acc : σ) {s : Outline} (hs : Awaits depth (first = true) s) :
    Scans s (members step fuel first acc) fun _ s' => Settled depth s' := by
  induction fuel generalizing first acc s with
  | nil => exact fun _ => .fails (.failAhead _)
  | cons _ fuel ih =>
    intro text
    unfold members
    refine (scans_moreMembers first hs text).bind fun more s rest _ hmore => ?_
    cases more with
    | true =>
      obtain rfl : s = within depth .inText := hmore
      refine (scans_textBody rest).bind fun key s rest' _ hs => ?_
      subst hs
      refine (hstep acc key rest').bind fun acc' s rest'' _ hs => ?_
      exact ih false acc' ⟨hs, fun h => absurd h Bool.false_ne_true⟩ rest''
    | false => exact .pure hmore

theorem scans_object {step : σ → String → JsonReader σ}
    (hstep : ∀ acc key,
      Scans (within (depth + 1) .behindText) (step acc key) fun _ s => Settled (depth + 1) s)
    (init : σ) : Scans (within depth .between) (object step init) fun _ s => Settled depth s := by
  intro text
  unfold object
  refine .start (rests_between depth) fun b rest _ => ?_
  split
  next hbrace =>
    subst hbrace
    refine .bump (t := within (depth + 1) .between) rfl (.steps ?_)
    refine (scans_members hstep _ true init (awaits_between _ _) rest).bind
      fun acc s rest' _ hs => ?_
    exact (scans_closeObject hs rest').bind fun _ s _ _ hs => .pure (.inl hs)
  next => exact .fails (.refuse _)

theorem scans_text : Scans (within depth .between) text fun _ s => Settled depth s := by
  intro text
  unfold JsonReader.text
  refine .start (rests_between depth) fun b rest _ => ?_
  split
  next hquote =>
    subst hquote
    exact .bump (t := within depth .inText) rfl
      ((scans_textBody rest).mono fun _ _ hs => .inr hs)
  next => exact .fails (.refuse _)

theorem scans_numberOf (expected : String) (accept : JsonNumber → Except JsonReason α) :
    Scans (within depth .between) (numberOf expected accept) fun _ s => Settled depth s := by
  intro text
  unfold numberOf
  refine .start (rests_between depth) fun b rest _ => ?_
  split
  next =>
    refine (scans_signedNumber _).bind fun n s _ _ hs => ?_
    split
    next => exact .pure (.inl hs)
    next => exact .fails (.failHere _)
  next => exact .fails (.refuse _)

theorem scans_valueWith {inner : Option (JsonReader Json)}
    (h : ∀ value ∈ inner,
      Scans (within (depth + 1) .between) value fun _ s => Settled (depth + 1) s) :
    Scans (within depth .between) (valueWith inner) fun _ s => Settled depth s := by
  intro text
  unfold valueWith
  refine .start (rests_between depth) fun b rest _ => ?_
  split
  next =>
    refine .bump (t := within depth .between) rfl ?_
    exact (scans_word isPlain_letters.1 rest).bind fun _ s _ _ hs => .pure (.inl hs)
  next =>
    refine .bump (t := within depth .between) rfl ?_
    exact (scans_word isPlain_letters.2.1 rest).bind fun _ s _ _ hs => .pure (.inl hs)
  next =>
    refine .bump (t := within depth .between) rfl ?_
    exact (scans_word isPlain_letters.2.2 rest).bind fun _ s _ _ hs => .pure (.inl hs)
  next =>
    exact .bump (t := within depth .inText) rfl
      (.map ((scans_textBody rest).mono fun _ _ hs => .inr hs))
  next =>
    split
    next => exact .fails (.failAhead _)
    next value =>
      refine .bump (t := within (depth + 1) .between) rfl (.steps ?_)
      refine (scans_items (h value rfl) _ true (awaits_between _ _) rest).bind
        fun xs s rest' _ hs => ?_
      exact (scans_closeList hs rest').bind fun _ s _ _ hs => .pure (.inl hs)
  next =>
    split
    next => exact .fails (.failAhead _)
    next value =>
      refine .bump (t := within (depth + 1) .between) rfl (.steps ?_)
      refine (scans_members (fun acc key rest => ?_) _ true [] (awaits_between _ _) rest).bind
        fun ms s rest' _ hs => ?_
      · refine (scans_colon rest).bind fun _ s rest' _ hs => ?_
        subst hs
        exact (h value rfl rest').bind fun v s _ _ hs => .pure hs
      · exact (scans_closeObject hs rest').bind fun _ s _ _ hs => .pure (.inl hs)
  next =>
    split
    next => exact .map ((scans_signedNumber _).mono fun _ _ hs => .inl hs)
    next => exact .fails (.failAhead _)

end

/-- A document of any kind. -/
theorem scans_value (limit depth : Nat) :
    Scans (within depth .between) (value limit) fun _ s => Settled depth s := by
  induction limit generalizing depth with
  | zero => exact scans_valueWith fun value hvalue => nomatch hvalue
  | succ limit ih =>
    refine scans_valueWith fun value hvalue => ?_
    obtain rfl := Option.some.inj hvalue
    exact ih (depth + 1)

section
variable {depth : Nat}

/-- Each field is read as a value. -/
def ScansFields (depth : Nat) (fields : List (Field σ)) : Prop :=
  ∀ f ∈ fields, ∀ draft,
    Scans (within depth .between) (f.read draft) fun _ s => Settled depth s

theorem scans_takeMember {fields : List (Field σ)} (hfields : ScansFields depth fields) (draft : σ)
    (key : String) :
    Scans (within depth .behindText) (takeMember fields draft key) fun _ s => Settled depth s := by
  intro text
  unfold takeMember
  split
  next =>
    refine (scans_colon text).bind fun _ s rest _ hs => ?_
    subst hs
    exact (scans_skipValue rest).bind fun _ s _ _ hs => .pure hs
  next f hfind =>
    split
    next => exact .fails (.failObject _)
    next =>
      refine (scans_colon text).bind fun _ s rest _ hs => ?_
      subst hs
      exact hfields f (List.mem_of_find?_eq_some hfind) draft rest

theorem scans_takeItems {shape : RecordShape σ α} {fields : List (Field σ)}
    (hfields : ScansFields depth fields) (index : Nat) (draft : σ) {s : Outline}
    (hs : Awaits depth (index = 0) s) :
    Scans s (takeItems shape index fields draft) fun _ s' => Settled depth s' := by
  induction fields generalizing index draft s with
  | nil => exact fun _ => .pure hs.1
  | cons f fields ih =>
    obtain ⟨hfirst, hothers⟩ := List.forall_mem_cons.mp hfields
    intro text
    unfold takeItems
    have hs' : Awaits depth ((index == 0) = true) s := ⟨hs.1, fun h => hs.2 (eq_of_beq h)⟩
    refine (scans_moreItems _ hs' text).bind fun more s rest _ hmore => ?_
    split
    next hgoOn =>
      obtain rfl := hmore.2 hgoOn
      refine (hfirst draft rest).bind fun draft' s rest' _ hs => ?_
      exact ih hothers (index + 1) draft' ⟨hs, fun h => absurd h (Nat.succ_ne_zero index)⟩ rest'
    next =>
      split
      next => exact .fails (.failList _)
      next => exact .pure hmore.1

/-- A record is a single bracketed value. -/
theorem scans_record {shape : RecordShape σ α} (hfields : ScansFields 0 shape.fields) :
    Scans before (record shape) fun _ s => s = after := by
  intro text
  unfold record
  refine .start rests_before fun b rest _ => ?_
  split
  next =>
    refine .bump (t := within 0 .between) rfl ?_
    refine (scans_takeItems hfields 0 shape.blank (awaits_between _ _) rest).bind
      fun draft s rest' _ hs => ?_
    split
    next => exact (scans_closeList hs rest').bind fun _ s _ _ hs => .pure hs
    next => exact .fails (.failList _)
  next =>
    refine .bump (t := within 0 .between) rfl (.steps ?_)
    refine (scans_members (scans_takeMember hfields) _ true shape.blank (awaits_between _ _)
      rest).bind fun draft s rest' _ hs => ?_
    split
    next => exact (scans_closeObject hs rest').bind fun _ s _ _ hs => .pure hs
    next => exact .fails (.failObject _)
  next => exact .fails (.refuse _)

end

end JsonReader

/-! ## 5. Calls -/

namespace RpcCall

open JsonReader Outline

theorem scansFields_shape (depth : Nat) : ScansFields depth shape.fields := by
  simp only [ScansFields, shape, List.forall_mem_cons]
  refine ⟨fun draft text => ?_, fun draft text => ?_, fun draft text => ?_, fun draft text => ?_,
    List.forall_mem_nil _⟩
  · exact (scans_numberOf _ _ text).bind fun _ s _ _ hs => .pure hs
  · exact (scans_text text).bind fun _ s _ _ hs => .pure hs
  · exact (scans_value _ _ text).bind fun _ s _ _ hs => .pure hs
  · refine (scans_object (fun acc key text => ?_) [] text).bind fun _ s _ _ hs => .pure hs
    refine (scans_colon text).bind fun _ s rest _ hs => ?_
    subst hs
    exact (scans_text rest).bind fun _ s _ _ hs => .pure hs

/-- A call is a single bracketed value. -/
theorem scan_of_decode {m : Bytes} {c : RpcCall} (h : decode m = .ok c) :
    before.scan m = some after := by
  obtain ⟨s, hs, rfl⟩ := (scans_record (scansFields_shape 0) m).run h fun _ hs => hs ▸ rests_after
  exact hs

/-- A list of fields needs a method, which is a text. -/
theorem takeItems_quoteless {text : Bytes} (hquote : 0x22 ∉ text) :
    ScansOn (within 0 .between) (takeItems shape 0 shape.fields shape.blank) text
      fun _ _ => False := by
  unfold takeItems
  refine (scans_moreItems _ (awaits_between 0 _) text).bind fun more s rest hrest hmore => ?_
  split
  next hgoOn =>
    obtain rfl := hmore.2 hgoOn
    refine (scansFields_shape 0 _ List.mem_cons_self _ rest).bind fun draft s rest' hrest' hs => ?_
    unfold takeItems
    have hsecond : Awaits 0 ((0 + 1 == 0) = true) s := ⟨hs, fun h => absurd h (by decide)⟩
    refine (scans_moreItems _ hsecond rest').bind fun more s rest₂ hrest₂ hmore => ?_
    split
    next hgoOn =>
      obtain rfl := hmore.2 hgoOn
      refine .bind (P := fun _ _ => False) (.bind (P := fun _ _ => False) ?_ ?_) ?_
      · refine .start (rests_between 0) fun b rest₃ hrest₃ => ?_
        have hb : b ≠ 0x22 := by
          rintro rfl
          exact hquote ((((hrest₃.trans hrest₂).trans hrest').trans hrest).subset
            List.mem_cons_self)
        rw [if_neg hb]
        exact .fails (.refuse _)
      · exact fun _ _ _ _ h => h.elim
      · exact fun _ _ _ _ h => h.elim
    next => exact .fails (.failList _)
  next => exact .fails (.failList _)

/-- Without a quote an object has no members. -/
theorem members_quoteless {step : σ → String → JsonReader σ} {text : Bytes}
    (hquote : 0x22 ∉ text) (fuel : Bytes) (acc : σ) :
    ScansOn (within 0 .between) (members step fuel true acc) text fun acc' _ => acc' = acc := by
  cases fuel with
  | nil => exact .fails (.failAhead _)
  | cons _ fuel =>
    unfold members
    refine .bind (P := fun more _ => more = false) ?_ fun more s rest _ hmore => ?_
    · unfold moreMembers
      refine .peekToken (rests_between 0) fun rest hrest => ?_
      split
      next => exact .fails (.failAhead _)
      next => exact .pure rfl
      next b _ hb =>
        obtain ⟨rest', rfl⟩ := List.head?_eq_some_iff.mp hb
        have hb : b ≠ 0x22 := fun h => hquote (hrest.subset (h ▸ List.mem_cons_self))
        rw [if_pos rfl, if_neg hb]
        exact .fails (.failAhead _)
    · subst hmore
      exact .pure rfl

/-- A call has a quote in it. -/
theorem quote_mem_of_decode {m : Bytes} {c : RpcCall} (h : decode m = .ok c) : 0x22 ∈ m := by
  by_contra hquote
  have hfails : ScansOn before (record shape) m fun _ _ => False := by
    unfold record
    refine .start rests_before fun b rest hrest => ?_
    have hquote' : 0x22 ∉ rest := fun hmem =>
      hquote (hrest.subset (List.mem_cons_of_mem b hmem))
    split
    next =>
      refine .bump (t := within 0 .between) rfl ?_
      exact (takeItems_quoteless hquote').bind fun _ _ _ _ h => h.elim
    next =>
      refine .bump (t := within 0 .between) rfl (.steps ?_)
      refine (members_quoteless hquote' _ _).bind fun draft s _ _ hdraft => ?_
      subst hdraft
      exact .fails (.failObject _)
    next => exact .fails (.refuse _)
  obtain ⟨s, -, hnone⟩ := hfails.run h fun _ hs => hs.elim
  exact hnone

theorem four_le_length_of_decode {m : Bytes} {c : RpcCall} (h : decode m = .ok c) :
    4 ≤ m.length := four_le_length (scan_of_decode h) (quote_mem_of_decode h)

end RpcCall
end Metering
