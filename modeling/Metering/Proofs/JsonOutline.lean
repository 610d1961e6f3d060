import Metering.Proofs.EnvelopeText

/-!
The outline of a text: its brackets and its quotes.

A scanner goes over a text byte by byte and keeps how many brackets are open and whether it stands
inside a quoted text (`Outline`). It admits much that is no JSON, but nothing behind the bracket
that was opened first, no second text right behind a text, and no control characters. A written
document is walked through without ever leaving its own bracket, so that no beginning of it is
closed: what closes inside of it has been opened inside of it.

Results:
1. `Outline.step_of_low`: what no outline has.
2. `Outline.four_le_length`: a bracket with a text in it has four bytes.
3. `Json.walk_write`: the outline of a written document.
4. `RpcCall.eq_encode_of_scan`: what ends with a beginning of a written call, and is closed, ends
   with the whole of it and has nothing but blanks before it.
-/
namespace Metering

open JsonCursor (isBlank)

/-! ## 1. The scanner -/

/-- Where a scanner can stand inside of brackets. -/
inductive OutlinePlace
  /-- In front of a value, or behind one that is no text. -/
  | between
  | behindText
  | inText
  /-- Behind a backslash. -/
  | inEscape
deriving DecidableEq

/-- How far a text has come: there are `depth` brackets open around the one in which it stands. -/
inductive Outline
  | before
  | within (depth : Nat) (place : OutlinePlace)
  | after
deriving DecidableEq

namespace Outline

def isOpening (b : UInt8) : Bool := b == 0x5b || b == 0x7b

def isClosing (b : UInt8) : Bool := b == 0x5d || b == 0x7d

/-- Behind a bracket that closes. -/
def close : Nat → Outline
  | 0 => after
  | depth + 1 => within depth .between

/-- One byte further. -/
def step : Outline → UInt8 → Option Outline
  | before, b =>
    if isBlank b then some before else if isOpening b then some (within 0 .between) else none
  | after, b => if isBlank b then some after else none
  | within depth .between, b =>
    if b = 0x22 then some (within depth .inText)
    else if isOpening b then some (within (depth + 1) .between)
    else if isClosing b then some (close depth)
    else if isBlank b || 0x20 ≤ b then some (within depth .between)
    else none
  | within depth .behindText, b =>
    if isBlank b then some (within depth .behindText)
    else if b = 0x2c ∨ b = 0x3a then some (within depth .between)
    else if isClosing b then some (close depth)
    else none
  | within depth .inText, b =>
    if b = 0x22 then some (within depth .behindText)
    else if b = 0x5c then some (within depth .inEscape)
    else if 0x20 ≤ b then some (within depth .inText)
    else none
  | within depth .inEscape, b =>
    if b = 0x75 ∨ (JsonReader.shortEscape? b).isSome then some (within depth .inText) else none

/-- Over a whole text. -/
def scan (s : Outline) : Bytes → Option Outline
  | [] => some s
  | b :: rest => (s.step b).bind fun s' => s'.scan rest

theorem scan_cons {s s' : Outline} {b : UInt8} (h : s.step b = some s') (rest : Bytes) :
    s.scan (b :: rest) = s'.scan rest := by
  rw [scan, h]
  rfl

theorem scan_append (s : Outline) (a b : Bytes) :
    s.scan (a ++ b) = (s.scan a).bind fun s' => s'.scan b := by
  induction a generalizing s with
  | nil => rfl
  | cons x a ih =>
    rw [List.cons_append, scan, scan]
    cases s.step x with
    | none => rfl
    | some s' => exact ih s'

theorem scan_append_of {s s' : Outline} {a : Bytes} (h : s.scan a = some s') (b : Bytes) :
    s.scan (a ++ b) = s'.scan b := by
  rw [scan_append, h]
  rfl

/-- Bytes that keep the scanner where it is. -/
theorem scan_of_forall {s : Outline} {b : Bytes} (h : ∀ x ∈ b, s.step x = some s) :
    s.scan b = some s := by
  induction b with
  | nil => rfl
  | cons x b ih =>
    obtain ⟨hx, hb⟩ := List.forall_mem_cons.mp h
    rw [scan_cons hx]
    exact ih hb

/-- A byte below the blanks is never admitted. -/
theorem step_of_low {b : UInt8} (h : b < 9) (s : Outline) : s.step b = none := by
  have hall : ∀ n < 9, UInt8.ofNat n ≠ 0x22 ∧ isOpening (UInt8.ofNat n) = false ∧
      isClosing (UInt8.ofNat n) = false ∧ isBlank (UInt8.ofNat n) = false ∧
      ¬ 0x20 ≤ UInt8.ofNat n ∧ UInt8.ofNat n ≠ 0x5c ∧ UInt8.ofNat n ≠ 0x2c ∧
      UInt8.ofNat n ≠ 0x3a ∧ UInt8.ofNat n ≠ 0x75 ∧
      (JsonReader.shortEscape? (UInt8.ofNat n)).isSome = false := by decide
  have hb := hall b.toNat (UInt8.lt_iff_toNat_lt.mp h)
  rw [UInt8.ofNat_toNat] at hb
  obtain ⟨hquote, hopening, hclosing, hblank, hlow, hslash, hcomma, hcolon, hu, hescape⟩ := hb
  match s with
  | before => simp [step, hblank, hopening]
  | after => simp [step, hblank]
  | within _ .between => simp [step, hquote, hopening, hclosing, hblank, hlow]
  | within _ .behindText => simp [step, hblank, hcomma, hcolon, hclosing]
  | within _ .inText => simp [step, hquote, hslash, hlow]
  | within _ .inEscape => simp [step, hu, hescape]

theorem not_low_of_scan {s s' : Outline} {b : Bytes} (h : s.scan b = some s') :
    ∀ x ∈ b, ¬ x < 9 := by
  induction b generalizing s with
  | nil => exact fun x hx => nomatch hx
  | cons y b ih =>
    obtain ⟨s₁, hs₁, hrest⟩ := Option.bind_eq_some_iff.mp h
    refine List.forall_mem_cons.mpr ⟨fun hlow => ?_, ih hrest⟩
    rw [step_of_low hlow] at hs₁
    cases hs₁

/-- Blanks change nothing outside of texts. -/
def Rests (s : Outline) : Prop := ∀ b, isBlank b = true → s.step b = some s

theorem rests_before : before.Rests := fun _ h => if_pos h

theorem rests_after : after.Rests := fun _ h => if_pos h

theorem rests_between (depth : Nat) : (within depth .between).Rests := by
  intro b h
  have hb : b = 0x20 ∨ b = 0x0a ∨ b = 0x09 ∨ b = 0x0d := by
    simpa [isBlank, or_assoc] using h
  rcases hb with rfl | rfl | rfl | rfl <;> rfl

theorem rests_behindText (depth : Nat) : (within depth .behindText).Rests := fun _ h => if_pos h

/-- Behind a value at a given depth. -/
def Settled (depth : Nat) (s : Outline) : Prop :=
  s = within depth .between ∨ s = within depth .behindText

theorem settled_between (depth : Nat) : Settled depth (within depth .between) := .inl rfl

theorem settled_behindText (depth : Nat) : Settled depth (within depth .behindText) := .inr rfl

theorem Settled.rests {depth : Nat} {s : Outline} (h : Settled depth s) : s.Rests := by
  rcases h with rfl | rfl
  · exact rests_between depth
  · exact rests_behindText depth

theorem Settled.step_comma {depth : Nat} {s : Outline} (h : Settled depth s) :
    s.step 0x2c = some (within depth .between) := by
  rcases h with rfl | rfl <;> rfl

theorem Settled.step_closing {depth : Nat} {s : Outline} (h : Settled depth s) {b : UInt8}
    (hb : b = 0x5d ∨ b = 0x7d) : s.step b = some (close depth) := by
  rcases h with rfl | rfl <;> rcases hb with rfl | rfl <;> rfl

/-! ## 2. The length of an outline -/

/-- How many bytes have been read at the least. -/
def spent : Outline → Nat
  | before | after => 0
  | within depth .between => depth + 1
  | within depth .inText => depth + 2
  | within depth .behindText | within depth .inEscape => depth + 3

/-- How many bytes are still missing at the least. -/
def owed : Outline → Nat
  | after => 0
  | before => 2
  | within depth .between | within depth .behindText => depth + 1
  | within depth .inText => depth + 2
  | within depth .inEscape => depth + 3

theorem spent_close (depth : Nat) : (close depth).spent = depth := by
  cases depth with
  | zero => rfl
  | succ depth => rfl

theorem owed_close (depth : Nat) : (close depth).owed = depth := by
  cases depth with
  | zero => rfl
  | succ depth => rfl

theorem measures_step {s t : Outline} {b : UInt8} (h : s.step b = some t) :
    t.spent ≤ s.spent + 1 ∧ s.owed ≤ t.owed + 1 := by
  match s with
  | before | after | within _ .inText | within _ .inEscape =>
    simp only [step] at h
    split_ifs at h <;> obtain rfl := Option.some.inj h <;> simp only [spent, owed] <;> omega
  | within depth .between =>
    simp only [step] at h
    split_ifs at h <;> obtain rfl := Option.some.inj h
    · exact ⟨Nat.le_refl _, by simp only [owed]; omega⟩
    · exact ⟨Nat.le_refl _, by simp only [owed]; omega⟩
    · rw [spent_close, owed_close]
      exact ⟨Nat.le_add_right depth 2, Nat.le_refl _⟩
    · exact ⟨Nat.le_succ _, Nat.le_succ _⟩
  | within depth .behindText =>
    simp only [step] at h
    split_ifs at h <;> obtain rfl := Option.some.inj h
    · exact ⟨Nat.le_succ _, Nat.le_succ _⟩
    · exact ⟨Nat.le_add_right (depth + 1) 3, Nat.le_succ _⟩
    · rw [spent_close, owed_close]
      exact ⟨Nat.le_add_right depth 4, Nat.le_refl _⟩

/-- A quote stands behind a bracket, and a quote or a bracket is still to come. -/
theorem three_le_of_quote {s t : Outline} (h : s.step 0x22 = some t) : 3 ≤ s.spent + t.owed := by
  match s with
  | before | after | within _ .behindText => cases h
  | within depth .between | within depth .inText | within depth .inEscape =>
    obtain rfl := Option.some.inj h
    simp only [spent, owed]
    omega

theorem measures_scan {s t : Outline} {b : Bytes} (h : s.scan b = some t) :
    t.spent ≤ s.spent + b.length ∧ s.owed ≤ t.owed + b.length := by
  induction b generalizing s with
  | nil =>
    obtain rfl := Option.some.inj h
    exact ⟨Nat.le_refl _, Nat.le_refl _⟩
  | cons x b ih =>
    obtain ⟨s₁, hs₁, hrest⟩ := Option.bind_eq_some_iff.mp h
    obtain ⟨hspent, howed⟩ := measures_step hs₁
    obtain ⟨hspent', howed'⟩ := ih hrest
    rw [List.length_cons]
    omega

/-- A bracket with a text in it takes four bytes. -/
theorem four_le_length {b : Bytes} (h : before.scan b = some after) (hquote : 0x22 ∈ b) :
    4 ≤ b.length := by
  obtain ⟨front, rest, rfl⟩ := List.append_of_mem hquote
  rw [scan_append] at h
  obtain ⟨s, hs, h⟩ := Option.bind_eq_some_iff.mp h
  obtain ⟨t, ht, hrest⟩ := Option.bind_eq_some_iff.mp h
  have hspent : s.spent ≤ 0 + front.length := (measures_scan hs).1
  have howed : t.owed ≤ 0 + rest.length := (measures_scan hrest).2
  have hmiddle := three_le_of_quote ht
  rw [List.length_append, List.length_cons]
  omega

/-! ## 3. Written documents -/

/-- Bytes of words and numbers. -/
def IsPlain (b : UInt8) : Prop :=
  b ≠ 0x22 ∧ isOpening b = false ∧ isClosing b = false ∧ 0x20 ≤ b

instance (b : UInt8) : Decidable (IsPlain b) := inferInstanceAs (Decidable (_ ∧ _ ∧ _ ∧ _))

theorem IsPlain.step {b : UInt8} (h : IsPlain b) (depth : Nat) :
    (within depth .between).step b = some (within depth .between) := by
  obtain ⟨hquote, hopening, hclosing, hlow⟩ := h
  simp [Outline.step, hquote, hopening, hclosing, hlow]

theorem isPlain_of_isDigit {b : UInt8} (h : JsonReader.isDigit b = true) : IsPlain b := by
  have hall : ∀ b, JsonReader.isDigit b = true → IsPlain b := Bytes.forall_byte (by decide +kernel)
  exact hall b h

theorem isPlain_numberText (n : JsonNumber) :
    ∀ b ∈ Json.ascii (Json.numberText n), IsPlain b :=
  Json.forall_numberText (fun _ => isPlain_of_isDigit) (by decide) n

/-- A walk over bytes that never comes out of the bracket at the given depth. -/
inductive Walk (depth : Nat) : Outline → Bytes → Outline → Prop
  | nil {e : Nat} {place : OutlinePlace} : depth ≤ e →
    Walk depth (within e place) [] (within e place)
  | cons {e : Nat} {place : OutlinePlace} {b : UInt8} {rest : Bytes} {s t : Outline} : depth ≤ e →
    (within e place).step b = some s → Walk depth s rest t →
    Walk depth (within e place) (b :: rest) t

namespace Walk

variable {depth : Nat} {s t u : Outline} {a b : Bytes}

theorem append (ha : Walk depth s a t) (hb : Walk depth t b u) : Walk depth s (a ++ b) u := by
  induction ha with
  | nil => exact hb
  | cons hle hstep _ ih => exact .cons hle hstep (ih hb)

theorem of_deeper (h : Walk (depth + 1) s b t) : Walk depth s b t := by
  induction h with
  | nil hle => exact .nil (Nat.le_of_succ_le hle)
  | cons hle hstep _ ih => exact .cons (Nat.le_of_succ_le hle) hstep ih

theorem scan (h : Walk depth s b t) : s.scan b = some t := by
  induction h with
  | nil => rfl
  | cons _ hstep _ ih => exact (scan_cons hstep _).trans ih

/-- Nowhere on the way is the bracket closed. -/
theorem not_after (h : Walk depth s b t) {p : Bytes} (hp : p <+: b) : s.scan p ≠ some after := by
  induction h generalizing p with
  | nil =>
    obtain rfl := List.prefix_nil.mp hp
    exact fun h => nomatch h
  | cons _ hstep _ ih =>
    cases p with
    | nil => exact fun h => nomatch h
    | cons x p =>
      obtain ⟨rfl, hp'⟩ := List.cons_prefix_cons.mp hp
      rw [scan_cons hstep]
      exact ih hp'

theorem of_forall {place : OutlinePlace}
    (h : ∀ x ∈ b, (within depth place).step x = some (within depth place)) :
    Walk depth (within depth place) b (within depth place) := by
  induction b with
  | nil => exact .nil (Nat.le_refl depth)
  | cons x b ih =>
    obtain ⟨hx, hb⟩ := List.forall_mem_cons.mp h
    exact .cons (Nat.le_refl depth) hx (ih hb)

end Walk

theorem step_inText {depth : Nat} {b : UInt8} (hquote : b ≠ 0x22) (hslash : b ≠ 0x5c)
    (hlow : ¬ b < 0x20) : (within depth .inText).step b = some (within depth .inText) := by
  simp [Outline.step, hquote, hslash, UInt8.not_lt.mp hlow]

theorem step_hexByte (depth : Nat) {n : Nat} (hn : n < 16) :
    (within depth .inText).step (Json.hexByte n) = some (within depth .inText) := by
  have hall : ∀ n < 16,
      Json.hexByte n ≠ 0x22 ∧ Json.hexByte n ≠ 0x5c ∧ ¬ Json.hexByte n < 0x20 := by decide
  obtain ⟨hquote, hslash, hlow⟩ := hall n hn
  exact step_inText hquote hslash hlow

theorem walk_shortEscape (depth : Nat) {x : UInt8} (hx : (JsonReader.shortEscape? x).isSome) :
    Walk depth (within depth .inText) [0x5c, x] (within depth .inText) :=
  .cons (Nat.le_refl depth) rfl
    (.cons (Nat.le_refl depth) (if_pos (.inr hx)) (.nil (Nat.le_refl depth)))

theorem walk_escapeByte (depth : Nat) (b : UInt8) :
    Walk depth (within depth .inText) (Json.escapeByte b) (within depth .inText) := by
  have hle := Nat.le_refl depth
  unfold Json.escapeByte
  split_ifs with hquote hslash h8 h9 ha hc hd hlow
  · exact walk_shortEscape depth (by decide)
  · exact walk_shortEscape depth (by decide)
  · exact walk_shortEscape depth (by decide)
  · exact walk_shortEscape depth (by decide)
  · exact walk_shortEscape depth (by decide)
  · exact walk_shortEscape depth (by decide)
  · exact walk_shortEscape depth (by decide)
  · have hsmall : b.toNat < 0x20 := UInt8.lt_iff_toNat_lt.mp hlow
    refine .cons hle rfl (.cons hle rfl (.cons hle rfl (.cons hle rfl ?_)))
    refine .cons hle (step_hexByte depth ?_) (.cons hle (step_hexByte depth ?_) (.nil hle))
    · exact Nat.div_lt_of_lt_mul (Nat.lt_trans hsmall (by decide))
    · exact Nat.mod_lt _ (by decide)
  · exact .cons hle (step_inText hquote hslash hlow) (.nil hle)

/-- What is walked through from behind an opening bracket to behind a value. -/
def Inner (b : Bytes) : Prop :=
  ∀ depth, ∃ s, Walk depth (within depth .between) b s ∧ Settled depth s

namespace Inner

theorem plain {b : Bytes} (h : ∀ x ∈ b, IsPlain x) : Inner b := fun depth =>
  ⟨_, .of_forall fun x hx => (h x hx).step depth, settled_between depth⟩

theorem quote (s : String) : Inner (Json.quote s) := by
  intro depth
  have hle := Nat.le_refl depth
  have hbody : ∀ b : Bytes, Walk depth (within depth .inText) (b.flatMap Json.escapeByte)
      (within depth .inText) := by
    intro b
    induction b with
    | nil => exact .nil hle
    | cons x b ih =>
      rw [List.flatMap_cons]
      exact (walk_escapeByte depth x).append ih
  refine ⟨within depth .behindText, .cons hle rfl ?_, settled_behindText depth⟩
  exact (hbody _).append (.cons hle rfl (.nil hle))

/-- Two values with a comma or a colon between them. -/
theorem separated {a b : Bytes} (ha : Inner a) (hb : Inner b) {mark : UInt8}
    (hmark : mark = 0x2c ∨ mark = 0x3a) : Inner (a ++ mark :: b) := by
  intro depth
  obtain ⟨s, hwalk, hs⟩ := ha depth
  obtain ⟨t, hwalk', ht⟩ := hb depth
  have hle := Nat.le_refl depth
  refine ⟨t, hwalk.append ?_, ht⟩
  rcases hs with rfl | rfl
  · refine .cons hle ?_ hwalk'
    rcases hmark with rfl | rfl <;> rfl
  · refine .cons hle ?_ hwalk'
    rcases hmark with rfl | rfl <;> rfl

/-- A value in brackets. -/
theorem bracketed {b : Bytes} (hb : Inner b) {opening closing : UInt8}
    (hopening : isOpening opening = true) (hclosing : closing = 0x5d ∨ closing = 0x7d) :
    Inner (opening :: (b ++ [closing])) := by
  intro depth
  obtain ⟨s, hwalk, hs⟩ := hb (depth + 1)
  have hle := Nat.le_refl depth
  have hopen : (within depth .between).step opening = some (within (depth + 1) .between) := by
    have hquote : opening ≠ 0x22 := by
      rintro rfl
      cases hopening
    simp [step, hquote, hopening]
  have hclose := hs.step_closing hclosing
  refine ⟨within depth .between, .cons hle hopen (hwalk.of_deeper.append ?_), settled_between _⟩
  rcases hs with rfl | rfl
  · exact .cons (Nat.le_succ depth) hclose (.nil hle)
  · exact .cons (Nat.le_succ depth) hclose (.nil hle)

end Inner
end Outline

namespace Json

open Outline

mutual

/-- A written document is walked through as one value. -/
theorem walk_write : ∀ j : Json, Inner j.write
  | .null => by unfold write; exact .plain (by decide +kernel)
  | .bool true => by unfold write; exact .plain (by decide +kernel)
  | .bool false => by unfold write; exact .plain (by decide +kernel)
  | .number n => by rw [write]; exact .plain (isPlain_numberText n)
  | .text s => by rw [write]; exact .quote s
  | .list [] => by
    unfold write
    exact .bracketed (b := []) (.plain fun _ h => nomatch h) rfl (.inl rfl)
  | .list (x :: xs) => by
    obtain ⟨body, heq, hbody⟩ := walk_writeItems xs (walk_write x)
    rw [write, List.cons_append, heq]
    exact hbody.bracketed rfl (.inl rfl)
  | .object [] => by
    unfold write
    exact .bracketed (b := []) (.plain fun _ h => nomatch h) rfl (.inr rfl)
  | .object ((k, v) :: ms) => by
    obtain ⟨body, heq, hbody⟩ :=
      walk_writeMembers ms ((Inner.quote k).separated (walk_write v) (.inr rfl))
    rw [write, List.cons_append, List.cons_append, heq]
    exact hbody.bracketed rfl (.inr rfl)

theorem walk_writeItems : ∀ (xs : List Json) {b : Bytes}, Inner b →
    ∃ body, b ++ writeItems xs = body ++ [0x5d] ∧ Inner body
  | [], b, hb => ⟨b, by rw [writeItems], hb⟩
  | x :: xs, b, hb => by
    obtain ⟨body, heq, hbody⟩ := walk_writeItems xs (hb.separated (walk_write x) (.inl rfl))
    refine ⟨body, ?_, hbody⟩
    rw [← heq, writeItems, List.append_assoc, List.cons_append]

theorem walk_writeMembers : ∀ (ms : List (String × Json)) {b : Bytes}, Inner b →
    ∃ body, b ++ writeMembers ms = body ++ [0x7d] ∧ Inner body
  | [], b, hb => ⟨b, by rw [writeMembers], hb⟩
  | (k, v) :: ms, b, hb => by
    have hmember := (Inner.quote k).separated (walk_write v) (.inr rfl)
    obtain ⟨body, heq, hbody⟩ := walk_writeMembers ms (hb.separated hmember (.inl rfl))
    refine ⟨body, ?_, hbody⟩
    rw [← heq, writeMembers]
    simp only [List.append_assoc, List.cons_append]

end

end Json

/-! ## 4. Beginnings of calls -/

namespace RpcCall

open Outline

/-- A call is written between braces. -/
theorem encode_eq (c : RpcCall) : ∃ body, c.encode = 0x7b :: (body ++ [0x7d]) ∧ Inner body := by
  obtain ⟨body, heq, hbody⟩ := Json.walk_writeMembers
    [("method", .text c.method), ("args", c.args),
      ("metadata", .object (c.metadata.map fun e => (e.1, .text e.2)))]
    ((Inner.quote "id").separated (Json.walk_write (.nat c.id.toNat)) (.inr rfl))
  refine ⟨body, ?_, hbody⟩
  rw [encode, toJson, Json.write, List.cons_append, List.cons_append, heq]

/-- The text of a call starts with the key of its number. -/
theorem encode_head (c : RpcCall) : ∃ more, c.encode = 0x7b :: 0x22 :: 0x69 :: 0x64 :: more :=
  ⟨_, rfl⟩

theorem visible_encode (c : RpcCall) : Json.Visible c.encode := Json.visible_write c.toJson

/-- Behind whatever the scanner has seen, a beginning of a call is closed only as a whole, and only
where nothing has been opened before. -/
theorem eq_encode_of_scan (c : RpcCall) {s : Outline} {u : Bytes} (hu : u <+: c.encode)
    (hpos : u ≠ []) (h : s.scan u = some after) : s = before ∧ u = c.encode := by
  obtain ⟨body, hencode, hbody⟩ := c.encode_eq
  obtain ⟨more, hhead⟩ := c.encode_head
  cases u with
  | nil => exact absurd rfl hpos
  | cons x v =>
    have hx : x = 0x7b ∧ v <+: body ++ [0x7d] := by
      rw [hencode] at hu
      exact List.cons_prefix_cons.mp hu
    obtain ⟨rfl, hv⟩ := hx
    -- At its own depth the text is closed by its last byte, and not before.
    have hwhole : ∀ depth, (within depth .between).scan v = some after →
        depth = 0 ∧ v = body ++ [0x7d] := by
      intro depth hscan
      obtain ⟨t, hwalk, ht⟩ := hbody depth
      rcases List.prefix_concat_iff.mp hv with rfl | hpart
      · rw [scan_append_of hwalk.scan, scan_cons (ht.step_closing (.inr rfl))] at hscan
        cases depth with
        | zero => exact ⟨rfl, rfl⟩
        | succ depth => cases hscan
      · exact absurd hscan (hwalk.not_after hpart)
    match s with
    | before =>
      obtain ⟨-, rfl⟩ := hwhole 0 h
      exact ⟨rfl, hencode.symm⟩
    | after => cases h
    | within depth .between => exact absurd (hwhole (depth + 1) h).1 (Nat.succ_ne_zero depth)
    | within _ .behindText => cases h
    | within _ .inEscape => cases h
    | within depth .inText =>
      -- The quote of the first key closes the text, and no letter stands right behind a text.
      have hv' : v <+: 0x22 :: 0x69 :: 0x64 :: more := by
        rw [hhead] at hu
        exact (List.cons_prefix_cons.mp hu).2
      match v with
      | [] => cases h
      | [y] =>
        obtain ⟨rfl, -⟩ := List.cons_prefix_cons.mp hv'
        cases h
      | y :: z :: w =>
        obtain ⟨rfl, hw⟩ := List.cons_prefix_cons.mp hv'
        obtain ⟨rfl, -⟩ := List.cons_prefix_cons.mp hw
        cases h

end RpcCall
end Metering
