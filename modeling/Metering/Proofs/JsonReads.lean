import Mathlib.Data.List.Forall2
import Metering.Json.Reader
import Metering.Proofs.Chaining
import Metering.Proofs.HeadRuns

/-!
What a reader makes of the text at its cursor.

A reader is described by what it takes from the head of a text, what it makes of it and what must
follow (`Reads`), but not by the place where that happens: lines and columns only matter for
faults. A dialogue of readers is described piece by piece, in the order of the text.

Results:
1. `Reads.bind`, `Reads.peek`, `Reads.bump`, `Reads.peekToken`: the rules for the pieces.
2. `reads_textBody`: a quoted text is read back as that text.
3. `reads_list`: written items are read back one by one, with any blanks between them.
4. `reads_braced`, `reads_record`: so are the members of an object, and those of a record.
-/
namespace Metering.JsonReader

open JsonCursor

/-- The reader takes `b` from a text that goes on with `rest`, and makes `a` of it. -/
def Reads (p : JsonReader α) (b : Bytes) (a : α) (rest : Bytes) : Prop :=
  ∀ c : JsonCursor, c.rest = b ++ rest → ∃ c', p c = .ok (a, c') ∧ c'.rest = rest

/-- Every byte of a gap may stand between two tokens. -/
def Gap (gap : Bytes) : Prop := ∀ b ∈ gap, isBlank b = true

/-- What may stand behind a value: nothing, a blank, a comma or a closing bracket. -/
def Ends (rest : Bytes) : Prop :=
  ∀ b, rest.head? = some b → isBlank b = true ∨ b = 0x2c ∨ b = 0x5d ∨ b = 0x7d

theorem gap_nil : Gap [] := fun _ h => absurd h List.not_mem_nil

/-! ## 1. Pieces -/

namespace Reads

theorem pure (a : α) (rest : Bytes) : Reads (pure a) [] a rest := fun c hc => ⟨c, rfl, hc⟩

theorem bind {p : JsonReader α} {f : α → JsonReader β} {b b' : Bytes} {a : α} {a' : β}
    {rest : Bytes} (hp : Reads p b a (b' ++ rest)) (hf : Reads (f a) b' a' rest) :
    Reads (p >>= f) (b ++ b') a' rest := by
  intro c hc
  rw [List.append_assoc] at hc
  obtain ⟨c₁, h₁, hrest⟩ := hp c hc
  obtain ⟨c₂, h₂, hrest₂⟩ := hf c₁ hrest
  exact ⟨c₂, (Chaining.bind_of_ok h₁).trans h₂, hrest₂⟩

/-- A reader that takes nothing comes first. -/
theorem bind_nil {p : JsonReader α} {f : α → JsonReader β} {b : Bytes} {a : α} {a' : β}
    {rest : Bytes} (hp : Reads p [] a (b ++ rest)) (hf : Reads (f a) b a' rest) :
    Reads (p >>= f) b a' rest := hp.bind hf

/-- A reader that takes nothing comes last. -/
theorem bind_last {p : JsonReader α} {f : α → JsonReader β} {b : Bytes} {a : α} {a' : β}
    {rest : Bytes} (hp : Reads p b a rest) (hf : Reads (f a) [] a' rest) :
    Reads (p >>= f) b a' rest := by
  rw [← List.append_nil b]
  refine Reads.bind ?_ hf
  exact hp

theorem map {p : JsonReader α} {b : Bytes} {a : α} {rest : Bytes} (f : α → β)
    (hp : Reads p b a rest) : Reads (f <$> p) b (f a) rest := by
  intro c hc
  obtain ⟨c₁, h₁, hrest⟩ := hp c hc
  refine ⟨c₁, ?_, hrest⟩
  show (p c >>= fun x => Except.ok (f x.1, x.2)) = _
  rw [h₁]
  rfl

theorem peek_self (rest : Bytes) : Reads JsonReader.peek [] rest.head? rest := fun c hc =>
  ⟨c, congrArg (fun r : Bytes => Except.ok (r.head?, c)) hc, hc⟩

theorem peek {f : Option UInt8 → JsonReader α} {b : Bytes} {a : α} {rest : Bytes}
    (hf : Reads (f (b ++ rest).head?) b a rest) : Reads (JsonReader.peek >>= f) b a rest :=
  bind_nil (peek_self (b ++ rest)) hf

theorem steps_self (rest : Bytes) : Reads JsonReader.steps [] (0 :: rest) rest := fun c hc =>
  ⟨c, congrArg (fun r : Bytes => Except.ok (0 :: r, c)) hc, hc⟩

theorem steps {f : Bytes → JsonReader α} {b : Bytes} {a : α} {rest : Bytes}
    (hf : Reads (f (0 :: (b ++ rest))) b a rest) : Reads (JsonReader.steps >>= f) b a rest :=
  bind_nil (steps_self (b ++ rest)) hf

theorem get {f : JsonCursor → JsonReader α} {b : Bytes} {a : α} {rest : Bytes}
    (hf : ∀ c, Reads (f c) b a rest) : Reads (get >>= f) b a rest := fun c hc => hf c c hc

theorem next_rest (c : JsonCursor) : c.next.rest = c.rest.tail := by
  unfold JsonCursor.next
  split
  next h => rw [h]; rfl
  next h => rw [h]; rfl
  next h => rw [h]; rfl

theorem bump_self (x : UInt8) (rest : Bytes) : Reads JsonReader.bump [x] () rest := by
  intro c hc
  exact ⟨c.next, rfl, by rw [next_rest, hc]; rfl⟩

theorem bump {f : Unit → JsonReader α} {x : UInt8} {b : Bytes} {a : α} {rest : Bytes}
    (hf : Reads (f ()) b a rest) : Reads (JsonReader.bump >>= f) (x :: b) a rest :=
  (bump_self x (b ++ rest)).bind hf

theorem advance_rest (n : Nat) (c : JsonCursor) : (c.advance n).rest = c.rest.drop n := by
  induction n generalizing c with
  | zero => rfl
  | succ n ih => rw [JsonCursor.advance, ih, next_rest, List.drop_tail]

theorem skipBlanks_rest (c : JsonCursor) : c.skipBlanks.rest = c.rest.dropWhile isBlank := by
  rw [JsonCursor.skipBlanks, advance_rest]
  exact HeadRuns.drop_length_takeWhile isBlank c.rest

/-- The next token, behind a gap. -/
theorem peekToken_self {gap : Bytes} {x : UInt8} {rest : Bytes} (hgap : Gap gap)
    (hx : isBlank x = false) :
    Reads JsonReader.peekToken gap (some x) (x :: rest) := by
  intro c hc
  have hrest : c.skipBlanks.rest = x :: rest := by
    rw [skipBlanks_rest, hc]
    exact HeadRuns.dropWhile_append hgap fun y hy => Option.some.inj hy ▸ hx
  refine ⟨c.skipBlanks, ?_, hrest⟩
  show Except.ok (c.skipBlanks.rest.head?, c.skipBlanks) = _
  rw [hrest]
  rfl

theorem peekToken {f : Option UInt8 → JsonReader α} {gap : Bytes} {x : UInt8} {b : Bytes} {a : α}
    {rest : Bytes} (hgap : Gap gap) (hx : isBlank x = false)
    (hf : Reads (f (some x)) (x :: b) a rest) :
    Reads (JsonReader.peekToken >>= f) (gap ++ x :: b) a rest :=
  (peekToken_self hgap hx).bind hf

/-- The next token, where the cursor stands. -/
theorem token {f : Option UInt8 → JsonReader α} {x : UInt8} {b : Bytes} {a : α} {rest : Bytes}
    (hx : isBlank x = false) (hf : Reads (f (some x)) (x :: b) a rest) :
    Reads (JsonReader.peekToken >>= f) (x :: b) a rest := peekToken gap_nil hx hf

end Reads

/-! ## 2. Texts -/

theorem reads_hexEscape {ds : Bytes} {n : Nat} (hlength : ds.length = 4)
    (hvalue : hexValue? ds = some n) (rest : Bytes) : Reads hexEscape ds n rest := by
  intro c hc
  have htake : c.rest.take 4 = ds := by rw [hc, ← hlength, List.take_left]
  refine ⟨c.advance 4, ?_, ?_⟩
  · unfold hexEscape
    simp only [htake, hlength, hvalue, Nat.lt_irrefl, if_false]
  · rw [Reads.advance_rest, hc, ← hlength, List.drop_left]

theorem reads_escape_short {x b : UInt8} (hx : x ≠ 0x75) (hb : shortEscape? x = some b)
    (rest : Bytes) : Reads escape [x] [b] rest := by
  unfold escape
  refine Reads.peek (Reads.bump ?_)
  rw [if_neg hx, hb]
  exact Reads.pure _ _

/-- A control character is written with two digits behind two zeros. -/
theorem hexValue?_control : ∀ n < 0x20,
    hexValue? [0x30, 0x30, Json.hexByte (n / 16), Json.hexByte (n % 16)] = some n ∧
      codePointBytes n = [UInt8.ofNat n] := by
  decide +kernel

theorem reads_escape_control {n : Nat} (hn : n < 0x20) (rest : Bytes) :
    Reads escape [0x75, 0x30, 0x30, Json.hexByte (n / 16), Json.hexByte (n % 16)] [UInt8.ofNat n]
      rest := by
  obtain ⟨hvalue, hbytes⟩ := hexValue?_control n hn
  unfold escape
  refine Reads.peek (Reads.bump ?_)
  show Reads unicodeEscape _ _ rest
  unfold unicodeEscape
  refine (reads_hexEscape rfl hvalue _).bind_last ?_
  rw [if_neg (by omega), if_pos (by omega), hbytes]
  exact Reads.pure _ _

/-- A byte stands for itself, or behind a backslash there is what stands for it. -/
theorem escapeByte_cases (b : UInt8) :
    (Json.escapeByte b = [b] ∧ b ≠ 0x22 ∧ b ≠ 0x5c ∧ ¬ b < 0x20) ∨
      ∃ e, Json.escapeByte b = 0x5c :: e ∧ ∀ rest, Reads escape e [b] rest := by
  unfold Json.escapeByte
  split
  next h => exact .inr ⟨_, rfl, reads_escape_short (by decide) (by rw [h]; rfl)⟩
  split
  next h => exact .inr ⟨_, rfl, reads_escape_short (by decide) (by rw [h]; rfl)⟩
  split
  next h => exact .inr ⟨_, rfl, reads_escape_short (by decide) (by rw [h]; rfl)⟩
  split
  next h => exact .inr ⟨_, rfl, reads_escape_short (by decide) (by rw [h]; rfl)⟩
  split
  next h => exact .inr ⟨_, rfl, reads_escape_short (by decide) (by rw [h]; rfl)⟩
  split
  next h => exact .inr ⟨_, rfl, reads_escape_short (by decide) (by rw [h]; rfl)⟩
  split
  next h => exact .inr ⟨_, rfl, reads_escape_short (by decide) (by rw [h]; rfl)⟩
  split
  next h =>
    have hcontrol := reads_escape_control (UInt8.lt_iff_toNat_lt.mp h)
    rw [UInt8.ofNat_toNat] at hcontrol
    exact .inr ⟨_, rfl, hcontrol⟩
  next hquote hbackslash _ _ _ _ _ hcontrol => exact .inl ⟨rfl, hquote, hbackslash, hcontrol⟩

/-- A text between quotes is read back byte by byte, with enough fuel for its bytes. -/
theorem reads_textBytes (bs fuel : Bytes) (hfuel : bs.length < fuel.length) (rest : Bytes) :
    Reads (textBytes fuel) (bs.flatMap Json.escapeByte ++ [0x22]) bs rest := by
  induction bs generalizing fuel with
  | nil =>
    cases fuel with
    | nil => cases hfuel
    | cons _ fuel => exact Reads.peek (Reads.bump (Reads.pure _ _))
  | cons b bs ih =>
    cases fuel with
    | nil => cases hfuel
    | cons _ fuel =>
      have hmore := ih fuel (Nat.lt_of_succ_lt_succ hfuel)
      rw [List.flatMap_cons, List.append_assoc]
      unfold textBytes
      rcases escapeByte_cases b with ⟨hself, hquote, hbackslash, hcontrol⟩ | ⟨e, he, hreads⟩
      · rw [hself]
        refine Reads.peek (Reads.bump ?_)
        rw [if_neg hquote, if_neg hbackslash, if_neg hcontrol]
        exact hmore.bind_last (Reads.pure _ _)
      · rw [he]
        refine Reads.peek (Reads.bump ?_)
        rw [if_neg (by decide), if_pos rfl]
        refine (hreads _).bind ?_
        exact hmore.bind_last (Reads.pure _ _)

theorem length_le_flatMap_escapeByte (bs : Bytes) :
    bs.length ≤ (bs.flatMap Json.escapeByte).length := by
  induction bs with
  | nil => exact Nat.le_refl _
  | cons b bs ih =>
    have hpos : 0 < (Json.escapeByte b).length := by
      rcases escapeByte_cases b with ⟨h, -⟩ | ⟨e, h, -⟩ <;> rw [h] <;> exact Nat.succ_pos _
    rw [List.flatMap_cons, List.length_append, List.length_cons]
    omega

/-- A text is read back from what its quotes enclose and the closing one. -/
theorem reads_textBody (s : String) (rest : Bytes) :
    Reads textBody ((Bytes.ofText s).flatMap Json.escapeByte ++ [0x22]) s rest := by
  unfold textBody
  refine Reads.get fun opening => Reads.steps ?_
  refine (reads_textBytes (Bytes.ofText s) _ ?_ _).bind_last ?_
  · have := length_le_flatMap_escapeByte (Bytes.ofText s)
    simp only [List.length_cons, List.length_append]
    omega
  · rw [Bytes.toText?_ofText]
    exact Reads.pure _ _

/-! ## 3. Lists -/

theorem ends_cons {x : UInt8} (hx : isBlank x = true ∨ x = 0x2c ∨ x = 0x5d ∨ x = 0x7d)
    (rest : Bytes) : Ends (x :: rest) := by
  intro b hb
  obtain rfl := Option.some.inj hb
  exact hx

theorem ends_gap {gap : Bytes} {rest : Bytes} (hgap : Gap gap) (hrest : Ends rest) :
    Ends (gap ++ rest) := by
  cases gap with
  | nil => exact hrest
  | cons x more => exact ends_cons (.inl (hgap x List.mem_cons_self)) _

/-- The text begins with a token, and not with one that closes a list. -/
def Starts (t : Bytes) : Prop := ∃ x more, t = x :: more ∧ isBlank x = false ∧ x ≠ 0x5d

/-- The reader makes `a` of the text, wherever a value may stand. -/
structure ValueText (p : JsonReader α) (t : Bytes) (a : α) : Prop where
  starts : Starts t
  reads : ∀ rest, Ends rest → Reads p t a rest

theorem reads_moreItems_comma {gap : Bytes} (hgap : Gap gap) {t : Bytes} (ht : Starts t)
    (rest : Bytes) : Reads (moreItems false) (0x2c :: gap) true (t ++ rest) := by
  obtain ⟨x, more, rfl, hx, hclose⟩ := ht
  unfold moreItems
  refine Reads.token (by decide) ?_
  refine Reads.bump ?_
  refine (Reads.peekToken_self hgap hx).bind_last ?_
  split
  next h => cases h
  next h => exact absurd (Option.some.inj h) hclose
  next => exact Reads.pure _ _

theorem reads_moreItems_first {gap : Bytes} (hgap : Gap gap) {t : Bytes} (ht : Starts t)
    (rest : Bytes) : Reads (moreItems true) gap true (t ++ rest) := by
  obtain ⟨x, more, rfl, hx, hclose⟩ := ht
  unfold moreItems
  refine (Reads.peekToken_self hgap hx).bind_last ?_
  split
  next h => cases h
  next h => exact absurd (Option.some.inj h) hclose
  next => exact Reads.pure _ _

theorem reads_moreItems_end {gap : Bytes} (hgap : Gap gap) (first : Bool) (rest : Bytes) :
    Reads (moreItems first) gap false (0x5d :: rest) := by
  unfold moreItems
  exact (Reads.peekToken_self hgap (by decide)).bind_last (Reads.pure _ _)

/-- Texts behind a comma and a gap each. -/
def commaTexts (gap : Bytes) (ts : List Bytes) : Bytes := ts.flatMap fun t => 0x2c :: (gap ++ t)

theorem ends_commaTexts {gap last : Bytes} (hlast : Gap last) (ts : List Bytes) {rest : Bytes}
    (hrest : Ends rest) : Ends (commaTexts gap ts ++ (last ++ rest)) := by
  cases ts with
  | nil =>
    show Ends (last ++ rest)
    exact ends_gap hlast hrest
  | cons t ts => exact ends_cons (.inr (.inl rfl)) _

/-- The items behind the first are read up to the closing bracket. -/
theorem reads_items_more {item : JsonReader α} {ts : List Bytes} {as : List α} {gap last : Bytes}
    (hgap : Gap gap) (hlast : Gap last) (h : List.Forall₂ (ValueText item) ts as) (fuel : Bytes)
    (hfuel : ts.length < fuel.length) (rest : Bytes) :
    Reads (items item fuel false) (commaTexts gap ts ++ last) as (0x5d :: rest) := by
  induction h generalizing fuel with
  | nil =>
    cases fuel with
    | nil => cases hfuel
    | cons _ fuel =>
      exact (reads_moreItems_end hlast false rest).bind_last (Reads.pure _ _)
  | @cons t a ts as ht _ ih =>
    cases fuel with
    | nil => cases hfuel
    | cons _ fuel =>
      have hmore := ih fuel (Nat.lt_of_succ_lt_succ hfuel)
      have htext : commaTexts gap (t :: ts) ++ last =
          (0x2c :: gap) ++ (t ++ (commaTexts gap ts ++ last)) := by
        simp [commaTexts]
      rw [htext]
      unfold items
      have hstart := reads_moreItems_comma hgap ht.starts
        (commaTexts gap ts ++ last ++ 0x5d :: rest)
      rw [← List.append_assoc t] at hstart
      refine hstart.bind ?_
      rw [if_pos rfl]
      refine (ht.reads _ ?_).bind (hmore.bind_last (Reads.pure _ _))
      rw [List.append_assoc]
      exact ends_commaTexts hlast ts (ends_cons (.inr (.inr (.inl rfl))) rest)

/-- Texts in a row: a gap before each, a comma between them and a gap behind the last. -/
def rowText (gap last : Bytes) : List Bytes → Bytes
  | [] => last
  | t :: ts => gap ++ (t ++ (commaTexts gap ts ++ last))

theorem reads_items {item : JsonReader α} {ts : List Bytes} {as : List α} {gap last : Bytes}
    (hgap : Gap gap) (hlast : Gap last) (h : List.Forall₂ (ValueText item) ts as) (fuel : Bytes)
    (hfuel : ts.length < fuel.length) (rest : Bytes) :
    Reads (items item fuel true) (rowText gap last ts) as (0x5d :: rest) := by
  cases fuel with
  | nil => cases hfuel
  | cons _ fuel =>
    cases h with
    | nil => exact (reads_moreItems_end hlast true rest).bind_last (Reads.pure _ _)
    | @cons t a ts as ht hts =>
      have hmore := reads_items_more hgap hlast hts fuel (Nat.lt_of_succ_lt_succ hfuel) rest
      unfold items
      have hstart := reads_moreItems_first hgap ht.starts
        (commaTexts gap ts ++ last ++ 0x5d :: rest)
      rw [← List.append_assoc t] at hstart
      refine hstart.bind ?_
      rw [if_pos rfl]
      refine (ht.reads _ ?_).bind (hmore.bind_last (Reads.pure _ _))
      rw [List.append_assoc]
      exact ends_commaTexts hlast ts (ends_cons (.inr (.inr (.inl rfl))) rest)

theorem length_le_commaTexts (gap : Bytes) (ts : List Bytes) :
    ts.length ≤ (commaTexts gap ts).length := by
  induction ts with
  | nil => exact Nat.le_refl _
  | cons t ts ih =>
    show ts.length + 1 ≤ (0x2c :: (gap ++ t) ++ commaTexts gap ts).length
    simp only [List.length_append, List.length_cons]
    omega

/-- The bytes of a row are fuel for its texts, if the first of them is not empty. -/
theorem length_le_rowText {gap last : Bytes} {ts : List Bytes}
    (h : ∀ t ∈ ts.head?, 0 < t.length) : ts.length ≤ (rowText gap last ts).length := by
  cases ts with
  | nil => exact Nat.zero_le _
  | cons t ts =>
    have hpos := h t rfl
    have := length_le_commaTexts gap ts
    simp only [rowText, List.length_append, List.length_cons]
    omega

theorem Starts.length_pos {t : Bytes} (h : Starts t) : 0 < t.length := by
  obtain ⟨x, more, rfl, -⟩ := h
  exact Nat.succ_pos _

/-- Behind a gap a value must start. -/
theorem reads_start {gap : Bytes} {x : UInt8} (hgap : Gap gap) (hx : isBlank x = false)
    (rest : Bytes) : Reads start gap x (x :: rest) :=
  (Reads.peekToken_self hgap hx).bind_last (Reads.pure _ _)

/-- Behind its opening bracket a list is read back from its items. -/
theorem reads_bracketed {item : JsonReader α} {ts : List Bytes} {as : List α} {gap last : Bytes}
    (hgap : Gap gap) (hlast : Gap last) (h : List.Forall₂ (ValueText item) ts as)
    (f : List α → β) (rest : Bytes) :
    Reads (steps >>= fun fuel => items item fuel true >>= fun xs => closeList >>= fun _ =>
      pure (f xs)) (rowText gap last ts ++ [0x5d]) (f as) rest := by
  have hfuel : ts.length ≤ (rowText gap last ts).length := by
    refine length_le_rowText fun t ht => ?_
    cases h with
    | nil => cases ht
    | cons hfirst _ =>
      obtain rfl := Option.some.inj ht
      exact hfirst.starts.length_pos
  refine Reads.steps ((reads_items hgap hlast h _ ?_ rest).bind ?_)
  · simp only [List.length_cons, List.length_append]
    omega
  · unfold closeList
    refine Reads.bind_last (a := ()) ?_ (Reads.pure _ _)
    exact Reads.token (by decide) (Reads.bump_self _ _)

/-- A list is read back from its items between brackets. -/
theorem reads_list {item : JsonReader α} {ts : List Bytes} {as : List α} {gap last : Bytes}
    (hgap : Gap gap) (hlast : Gap last) (h : List.Forall₂ (ValueText item) ts as) (rest : Bytes) :
    Reads (list item) (0x5b :: (rowText gap last ts ++ [0x5d])) as rest := by
  unfold list
  refine Reads.bind_nil (reads_start gap_nil (by decide) _) ?_
  rw [if_pos rfl]
  exact Reads.bump (reads_bracketed hgap hlast h id rest)

/-! ## 4. Members -/

theorem reads_moreMembers_comma {gap : Bytes} (hgap : Gap gap) (rest : Bytes) :
    Reads (moreMembers false) (0x2c :: (gap ++ [0x22])) true rest := by
  unfold moreMembers
  refine Reads.token (by decide) ?_
  refine Reads.bump ?_
  exact Reads.peekToken hgap (by decide) (Reads.bump (Reads.pure _ _))

theorem reads_moreMembers_first {gap : Bytes} (hgap : Gap gap) (rest : Bytes) :
    Reads (moreMembers true) (gap ++ [0x22]) true rest := by
  unfold moreMembers
  exact Reads.peekToken hgap (by decide) (Reads.bump (Reads.pure _ _))

theorem reads_moreMembers_end {gap : Bytes} (hgap : Gap gap) (first : Bool) (rest : Bytes) :
    Reads (moreMembers first) gap false (0x7d :: rest) := by
  unfold moreMembers
  exact (Reads.peekToken_self hgap (by decide)).bind_last (Reads.pure _ _)

/-- The texts of members, each its key and what follows it, take one value to another. -/
inductive MembersText (step : σ → String → JsonReader σ) : σ → List Bytes → σ → Prop
  | nil {acc : σ} : MembersText step acc [] acc
  | cons {acc acc' acc'' : σ} {key : String} {t : Bytes} {ts : List Bytes} :
      (∀ rest, Ends rest → Reads (step acc key) t acc' rest) →
      MembersText step acc' ts acc'' → MembersText step acc ((Json.quote key ++ t) :: ts) acc''

/-- A key and its value, with the quote that opens the key taken before. -/
theorem reads_member {step : σ → String → JsonReader σ} {acc acc' : σ} {key : String}
    {t rest : Bytes} (h : Reads (step acc key) t acc' rest) (next : σ → JsonReader β) {b : Bytes}
    {a : β} {rest' : Bytes} (hrest : rest = b ++ rest') (hnext : Reads (next acc') b a rest') :
    Reads (textBody >>= fun key => step acc key >>= next)
      ((Bytes.ofText key).flatMap Json.escapeByte ++ [0x22] ++ (t ++ b)) a rest' := by
  subst hrest
  exact (reads_textBody key _).bind (h.bind hnext)

theorem reads_members_more {step : σ → String → JsonReader σ} {acc acc' : σ} {ts : List Bytes}
    {gap last : Bytes} (hgap : Gap gap) (hlast : Gap last) (h : MembersText step acc ts acc')
    (fuel : Bytes) (hfuel : ts.length < fuel.length) (rest : Bytes) :
    Reads (members step fuel false acc) (commaTexts gap ts ++ last) acc' (0x7d :: rest) := by
  induction h generalizing fuel with
  | nil =>
    cases fuel with
    | nil => cases hfuel
    | cons _ fuel =>
      exact (reads_moreMembers_end hlast false rest).bind_last (Reads.pure _ _)
  | @cons acc acc' acc'' key t ts ht _ ih =>
    cases fuel with
    | nil => cases hfuel
    | cons _ fuel =>
      have hmore := ih fuel (Nat.lt_of_succ_lt_succ hfuel)
      have hends : Ends (commaTexts gap ts ++ last ++ 0x7d :: rest) := by
        rw [List.append_assoc]
        exact ends_commaTexts hlast ts (ends_cons (.inr (.inr (.inr rfl))) rest)
      have htext : commaTexts gap ((Json.quote key ++ t) :: ts) ++ last =
          (0x2c :: (gap ++ [0x22])) ++ ((Bytes.ofText key).flatMap Json.escapeByte ++ [0x22] ++
            (t ++ (commaTexts gap ts ++ last))) := by
        simp [commaTexts, Json.quote]
      rw [htext]
      unfold members
      refine (reads_moreMembers_comma hgap _).bind ?_
      rw [if_pos rfl]
      exact reads_member (ht _ hends) _ rfl hmore

/-- Members are read back up to the closing brace. -/
theorem reads_members {step : σ → String → JsonReader σ} {acc acc' : σ} {ts : List Bytes}
    {gap last : Bytes} (hgap : Gap gap) (hlast : Gap last) (h : MembersText step acc ts acc')
    (fuel : Bytes) (hfuel : ts.length < fuel.length) (rest : Bytes) :
    Reads (members step fuel true acc) (rowText gap last ts) acc' (0x7d :: rest) := by
  cases fuel with
  | nil => cases hfuel
  | cons _ fuel =>
    cases h with
    | nil => exact (reads_moreMembers_end hlast true rest).bind_last (Reads.pure _ _)
    | @cons _ acc' _ key t ts ht hts =>
      have hmore := reads_members_more hgap hlast hts fuel (Nat.lt_of_succ_lt_succ hfuel) rest
      have hends : Ends (commaTexts gap ts ++ last ++ 0x7d :: rest) := by
        rw [List.append_assoc]
        exact ends_commaTexts hlast ts (ends_cons (.inr (.inr (.inr rfl))) rest)
      have htext : rowText gap last ((Json.quote key ++ t) :: ts) =
          (gap ++ [0x22]) ++ ((Bytes.ofText key).flatMap Json.escapeByte ++ [0x22] ++
            (t ++ (commaTexts gap ts ++ last))) := by
        simp [rowText, Json.quote]
      rw [htext]
      unfold members
      refine (reads_moreMembers_first hgap _).bind ?_
      rw [if_pos rfl]
      exact reads_member (ht _ hends) _ rfl hmore

theorem MembersText.length_pos {step : σ → String → JsonReader σ} {acc acc' : σ}
    {ts : List Bytes} (h : MembersText step acc ts acc') : ∀ t ∈ ts.head?, 0 < t.length := by
  intro t ht
  cases h with
  | nil => cases ht
  | cons _ _ =>
    obtain rfl := Option.some.inj ht
    exact Nat.succ_pos _

/-- With its braces an object is read back from its members. What is made of them may be checked
before the closing brace is taken. -/
theorem reads_braced {step : σ → String → JsonReader σ} {init acc : σ} {ts : List Bytes}
    {gap last : Bytes} (hgap : Gap gap) (hlast : Gap last) (h : MembersText step init ts acc)
    {finish : σ → JsonReader α} {a : α} (hfinish : finish acc = closeObject >>= fun _ => pure a)
    (rest : Bytes) :
    Reads (bump >>= fun _ => steps >>= fun fuel => members step fuel true init >>= finish)
      (0x7b :: (rowText gap last ts ++ [0x7d])) a rest := by
  have hfuel : ts.length ≤ (rowText gap last ts).length := length_le_rowText h.length_pos
  refine Reads.bump (Reads.steps ?_)
  refine (reads_members hgap hlast h _ ?_ rest).bind ?_
  · simp only [List.length_cons, List.length_append]
    omega
  · rw [hfinish]
    unfold closeObject
    refine Reads.bind_last (a := ()) ?_ (Reads.pure _ _)
    exact Reads.token (by decide) (Reads.bump_self _ _)

/-- A record is read back from its members between braces. -/
theorem reads_record {shape : RecordShape σ α} {draft : σ} {a : α} {ts : List Bytes}
    {gap last : Bytes} (hgap : Gap gap) (hlast : Gap last)
    (h : MembersText (takeMember shape.fields) shape.blank ts draft)
    (hbuild : shape.build draft = .ok a) (rest : Bytes) :
    Reads (record shape) (0x7b :: (rowText gap last ts ++ [0x7d])) a rest := by
  unfold record
  refine Reads.bind_nil (reads_start gap_nil (by decide) _) ?_
  refine reads_braced hgap hlast h ?_ rest
  rw [hbuild]

/-! ## Whole texts -/

/-- A text that a reader takes whole. -/
theorem run_of_reads {p : JsonReader α} {b : Bytes} {a : α} (h : Reads p b a []) :
    run p b = .ok a := by
  obtain ⟨c, hc, hrest⟩ := h (.start b) (List.append_nil b).symm
  unfold run
  rw [hc]
  have hend : c.skipBlanks.rest = [] := by rw [Reads.skipBlanks_rest, hrest]; rfl
  simp only [hend, if_true]

end Metering.JsonReader
