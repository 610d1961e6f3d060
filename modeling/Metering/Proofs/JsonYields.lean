import Metering.Json.Shape
import Metering.Proofs.JsonNumbers
import Metering.Proofs.NearestRank
import Metering.Store.Table

/-!
What can come out of a text, whatever the text is.

`Yields` says that whatever a reader makes of a text has a property. A reader that fails yields
anything, so every rule passes a property from the parts of a dialogue to the whole, and a text
need not be known. A record is followed through its drafts by a property that every field keeps.

Results:
1. `yields_signedNumber`: a number in a text has 64 bits, or it is finite.
2. `isFinite_acceptBinary`: as a reading it is finite.
3. `yields_list`, `yields_record`: lists and records yield what their items and fields yield.
4. `yields_value`: every number of a document is such a number.
5. `JsonShape.of_record`: a record that is taken out of a document has what its fields keep.
-/
namespace Metering

namespace JsonReader

/-- Whatever the reader makes of a text has the property. -/
def Yields (p : JsonReader α) (P : α → Prop) : Prop :=
  ∀ c a c', p c = .ok (a, c') → P a

namespace Yields

variable {P : α → Prop} {Q : β → Prop}

theorem pure {a : α} (h : P a) : Yields (pure a) P := by
  intro c b c' hb
  obtain ⟨rfl, -⟩ := Prod.mk.inj (Except.ok.inj hb)
  exact h

theorem bind {p : JsonReader α} {f : α → JsonReader β} (hp : Yields p P)
    (hf : ∀ a, P a → Yields (f a) Q) : Yields (p >>= f) Q := by
  intro c b c' hb
  obtain ⟨⟨a, c₁⟩, ha, hfa⟩ := Chaining.ok_of_bind hb
  exact hf a (hp c a c₁ ha) c₁ b c' hfa

/-- What comes first is of no interest. -/
theorem after {p : JsonReader α} {f : α → JsonReader β} (hf : ∀ a, Yields (f a) Q) :
    Yields (p >>= f) Q :=
  bind (P := fun _ => True) (fun _ _ _ _ => trivial) fun a _ => hf a

theorem map {p : JsonReader α} {f : α → β} (hp : Yields p fun a => Q (f a)) :
    Yields (f <$> p) Q := by
  intro c b c' hb
  obtain ⟨⟨a, c₁⟩, ha, hfa⟩ := Chaining.ok_of_bind (x := p c) hb
  obtain ⟨rfl, -⟩ := Prod.mk.inj (Except.ok.inj hfa)
  exact hp c a c₁ ha

theorem failHere (reason : JsonReason) : Yields (failHere reason) P := by
  intro c a c' h
  cases h

theorem failAhead (reason : JsonReason) : Yields (failAhead reason) P := by
  intro c a c' h
  cases h

theorem failObject (reason : JsonReason) : Yields (failObject reason) P := by
  intro c a c' h
  cases h

theorem failList (reason : JsonReason) : Yields (failList reason) P := by
  intro c a c' h
  cases h

/-- A value that is refused is no value. -/
theorem refuse (expected : String) : Yields (refuse expected) P := by
  unfold JsonReader.refuse
  refine after fun b => ?_
  split
  next => exact after fun _ => after fun _ => failHere _
  next => exact after fun _ => after fun _ => failHere _
  next => exact after fun _ => after fun _ => failHere _
  next => exact after fun _ => after fun _ => failHere _
  next => exact failHere _
  next => exact failHere _
  next =>
    split
    next => exact after fun _ => failHere _
    next => exact failAhead _
  next => exact failAhead _

theorem run {p : JsonReader α} (hp : Yields p P) {text : Bytes} {a : α}
    (h : JsonReader.run p text = .ok a) : P a := by
  unfold JsonReader.run at h
  split at h
  next => cases h
  next a' c' ha =>
    dsimp only at h
    split at h
    next =>
      obtain rfl := Except.ok.inj h
      exact hp _ _ _ ha
    next => cases h

end Yields

/-! ## 1. Numbers -/

theorem yields_rounded (s : Spelled) (power : Int) : Yields (rounded s power) Writable := by
  unfold rounded
  dsimp only
  split
  next hfinite => exact .pure hfinite
  next => exact .failHere _

theorem yields_exponent (s : Spelled) : Yields (exponent s) Writable := by
  unfold exponent
  refine .after fun _ => .after fun _ => ?_
  extract_lets power
  have hpower : ∀ positive, Yields (power positive) Writable := by
    intro positive
    refine .after fun b => ?_
    split
    next => exact .failHere _
    next =>
      split
      next => exact .after fun _ => .failHere _
      next =>
        refine .after fun c => .after fun ds => ?_
        split
        next =>
          split
          next => exact .after fun _ => .failHere _
          next =>
            refine .pure ?_
            show Binary64.isFinite _ = true
            rw [Binary64.isFinite, Binary64.rank_ofRank (by decide)]
            rfl
        next => exact yields_rounded _ _
  split
  next => exact .after fun _ => .after hpower
  next => exact .after fun _ => .after hpower
  next => exact .after hpower

theorem yields_afterWhole (negative : Bool) (whole : Nat) :
    Yields (afterWhole negative whole) Writable := by
  unfold afterWhole
  refine .after fun b => ?_
  split
  next =>
    refine .after fun _ => .after fun ds => .after fun next => ?_
    split
    next =>
      split
      next => exact .failAhead _
      next => exact .failAhead _
    next =>
      dsimp only
      split
      next => exact yields_exponent _
      next => exact yields_exponent _
      next => exact yields_rounded _ _
  next => exact yields_exponent _
  next => exact yields_exponent _
  next =>
    split
    next =>
      split
      next => exact yields_rounded _ _
      next hrange =>
        refine .pure ?_
        show -0x8000000000000000 ≤ -(whole : Int) ∧ -(whole : Int) < 0
        omega
    next =>
      split
      next hrange => exact .pure hrange
      next => exact yields_rounded _ _

theorem yields_number (negative : Bool) : Yields (number negative) Writable := by
  unfold number
  refine .after fun b => ?_
  split
  next => exact .failHere _
  next =>
    split
    next =>
      refine .after fun _ => .after fun d => ?_
      split
      next =>
        split
        next => exact .failAhead _
        next => exact yields_afterWhole _ _
      next => exact yields_afterWhole _ _
    next =>
      split
      next => exact .after fun ds => yields_afterWhole _ _
      next => exact .after fun _ => .failHere _

/-- A number in a text is a whole one of 64 bits, or it is finite. -/
theorem yields_signedNumber : Yields signedNumber Writable := by
  unfold signedNumber
  refine .after fun b => ?_
  split
  next => exact .after fun _ => yields_number true
  next => exact yields_number false

end JsonReader

/-! ## 2. Readings -/

namespace Binary64

/-- A quotient that is well below the first value that is not finite is rounded to a finite one. -/
theorem isFinite_ofQuotient (s : Bool) {n d : Nat} (hd : 0 < d)
    (h : 2 * inUnits n < units infinityRank * d) : (ofQuotient s n d).isFinite = true := by
  have hlow := (nearest_uncapped (inUnits n) hd).low
  have hrank : nearestRank (inUnits n) d < infinityRank := by
    unfold nearestRank
    dsimp only
    generalize excess (inUnits n) d * 0x10000000000000 + roundHalfEven (inUnits n)
      (d * Nat.pow 2 (excess (inUnits n) d)) = r at hlow ⊢
    refine Nat.lt_of_le_of_lt (Nat.min_le_right _ _) (Nat.lt_of_not_le fun hle => ?_)
    have hunits : units infinityRank * d ≤ (units (r - 1) + units r) * d :=
      Nat.mul_le_mul_right d (Nat.le_trans (units_le_units hle) (Nat.le_add_left _ _))
    exact Nat.lt_irrefl _ (Nat.lt_of_lt_of_le h (Nat.le_trans hunits hlow))
  have hbelow : infinityRank < 0x8000000000000000 := by decide
  rw [ofQuotient_eq, isFinite, rank_ofRank (Nat.lt_trans hrank hbelow)]
  exact decide_eq_true hrank

/-- A whole number of 64 bits is finite as a binary number. -/
theorem isFinite_ofWhole (s : Bool) {n : Nat} (h : n < 0x10000000000000000) :
    (ofQuotient s n 1).isFinite = true := by
  refine isFinite_ofQuotient s Nat.one_pos ?_
  have hbound : 2 * (0x10000000000000000 * inUnits 1) < units infinityRank := by decide +kernel
  have hle : inUnits n ≤ 0x10000000000000000 * inUnits 1 := by
    rw [inUnits_eq]
    exact Nat.mul_le_mul_right _ (Nat.le_of_lt h)
  rw [Nat.mul_one]
  exact Nat.lt_of_le_of_lt (Nat.mul_le_mul_left 2 hle) hbound

end Binary64

/-- Every number of a document is finite as a reading. -/
theorem Json.isFinite_acceptBinary {n : JsonNumber} (h : JsonReader.Writable n) :
    (acceptBinary n).isFinite = true := by
  cases n with
  | natural n => exact Binary64.isFinite_ofWhole false h
  | negative i =>
    obtain ⟨hlow, hhigh⟩ := h
    exact Binary64.isFinite_ofWhole _ (by omega)
  | binary x => exact h

/-- Every number of the document has 64 bits or is finite. -/
inductive Json.Writable : Json → Prop
  | null : Writable .null
  | bool (b : Bool) : Writable (.bool b)
  | number {n : JsonNumber} : JsonReader.Writable n → Writable (.number n)
  | text (s : String) : Writable (.text s)
  | list {xs : List Json} : (∀ x ∈ xs, Writable x) → Writable (.list xs)
  | object {ms : List (String × Json)} : (∀ m ∈ ms, Writable m.2) → Writable (.object ms)

namespace JsonReader

/-! ## 3. Brackets -/

theorem yields_items {item : JsonReader α} {P : α → Prop} (h : Yields item P) (fuel : Bytes)
    (first : Bool) : Yields (items item fuel first) fun xs => ∀ x ∈ xs, P x := by
  induction fuel generalizing first with
  | nil => exact .failAhead _
  | cons _ fuel ih =>
    unfold items
    refine .after fun more => ?_
    split
    next =>
      refine .bind h fun head hhead => .bind (ih false) fun tail htail => .pure ?_
      exact List.forall_mem_cons.mpr ⟨hhead, htail⟩
    next => exact .pure fun x hx => absurd hx List.not_mem_nil

/-- What every member keeps holds at the closing brace. -/
theorem yields_members {step : σ → String → JsonReader σ} {I : σ → Prop}
    (hstep : ∀ acc key, I acc → Yields (step acc key) I) (fuel : Bytes) (first : Bool) {acc : σ}
    (hacc : I acc) : Yields (members step fuel first acc) I := by
  induction fuel generalizing first acc with
  | nil => exact .failAhead _
  | cons _ fuel ih =>
    unfold members
    refine .after fun more => ?_
    split
    next => exact .after fun key => .bind (hstep acc key hacc) fun acc' hacc' => ih false hacc'
    next => exact .pure hacc

theorem yields_list {item : JsonReader α} {P : α → Prop} (h : Yields item P) :
    Yields (list item) fun xs => ∀ x ∈ xs, P x := by
  unfold list
  refine .after fun b => ?_
  split
  next =>
    refine .after fun _ => .after fun fuel => .bind (yields_items h fuel true) fun xs hxs => ?_
    exact .after fun _ => .pure hxs
  next => exact .refuse _

theorem yields_numberOf {expected : String} {accept : JsonNumber → Except JsonReason α}
    {P : α → Prop} (h : ∀ n a, Writable n → accept n = .ok a → P a) :
    Yields (numberOf expected accept) P := by
  unfold numberOf
  refine .after fun b => ?_
  split
  next =>
    refine .bind yields_signedNumber fun n hn => ?_
    split
    next a ha => exact .pure (h n a hn ha)
    next => exact .failHere _
  next => exact .refuse _

theorem yields_optional {value : JsonReader α} {P : α → Prop} (h : Yields value P) :
    Yields (optional value) fun o => ∀ a ∈ o, P a := by
  unfold optional
  refine .after fun b => ?_
  split
  next => exact .after fun _ => .after fun _ => .pure fun a ha => nomatch ha
  next =>
    refine .map fun c a c' ha b hb => ?_
    obtain rfl := Option.some.inj hb
    exact h c a c' ha

section
variable {shape : RecordShape σ α} {I : σ → Prop}

/-- A member is kept out if the draft has it already, so its field need only keep what holds of
drafts that lack it. -/
theorem yields_takeMember_new {fields : List (Field σ)}
    (hfields : ∀ f ∈ fields, ∀ draft, I draft → f.given draft = false → Yields (f.read draft) I)
    (draft : σ) (key : String) (hdraft : I draft) : Yields (takeMember fields draft key) I := by
  unfold takeMember
  split
  next => exact .after fun _ => .after fun _ => .pure hdraft
  next f hfind =>
    split
    next => exact .failObject _
    next hnew =>
      refine .after fun _ => hfields f (List.mem_of_find?_eq_some hfind) draft hdraft ?_
      simpa using hnew

theorem yields_takeMember {fields : List (Field σ)}
    (hfields : ∀ f ∈ fields, ∀ draft, I draft → Yields (f.read draft) I) (draft : σ) (key : String)
    (hdraft : I draft) : Yields (takeMember fields draft key) I :=
  yields_takeMember_new (fun f hf d hd _ => hfields f hf d hd) draft key hdraft

theorem yields_takeItems {fields : List (Field σ)}
    (hfields : ∀ f ∈ fields, ∀ draft, I draft → Yields (f.read draft) I) (index : Nat) {draft : σ}
    (hdraft : I draft) : Yields (takeItems shape index fields draft) I := by
  induction fields generalizing index draft with
  | nil => exact .pure hdraft
  | cons f fields ih =>
    obtain ⟨hfirst, hothers⟩ := List.forall_mem_cons.mp hfields
    unfold takeItems
    refine .after fun more => ?_
    split
    next => exact .bind (hfirst draft hdraft) fun draft' hdraft' => ih hothers (index + 1) hdraft'
    next =>
      split
      next => exact .failList _
      next => exact .pure hdraft

/-- What the blank draft has and every field keeps, the record is built from. -/
theorem yields_record {P : α → Prop} (hblank : I shape.blank)
    (hfields : ∀ f ∈ shape.fields, ∀ draft, I draft → Yields (f.read draft) I)
    (hbuild : ∀ draft a, I draft → shape.build draft = .ok a → P a) : Yields (record shape) P := by
  unfold record
  refine .after fun b => ?_
  split
  next =>
    refine .after fun _ => .bind (yields_takeItems hfields 0 hblank) fun draft hdraft => ?_
    split
    next a ha => exact .after fun _ => .pure (hbuild draft a hdraft ha)
    next => exact .failList _
  next =>
    refine .after fun _ => .after fun fuel => ?_
    refine .bind (yields_members (yields_takeMember hfields) fuel true hblank) fun draft hdraft => ?_
    split
    next a ha => exact .after fun _ => .pure (hbuild draft a hdraft ha)
    next => exact .failObject _
  next => exact .refuse _

end

/-! ## 4. Documents -/

theorem insertMember_eq (key : String) (v : Json) (ms : List (String × Json)) :
    Json.insertMember key v ms = Table.putEntry key v ms := by
  induction ms with
  | nil => rfl
  | cons m ms ih => rw [Json.insertMember, Table.putEntry, ih]

/-- Scalars have `P`, and so have lists and objects, if brackets may be opened and what they
enclose has `Q`. The members of an object stand in the order of their keys. -/
structure Closed (inner : Option (JsonReader Json)) (Q P : Json → Prop) : Prop where
  null : P .null
  bool (b : Bool) : P (.bool b)
  number (n : JsonNumber) : Writable n → P (.number n)
  text (s : String) : P (.text s)
  list (xs : List Json) : inner.isSome = true → (∀ x ∈ xs, Q x) → P (.list xs)
  object (ms : List (String × Json)) : inner.isSome = true →
    (ms.Pairwise fun a b => a.1 < b.1) → (∀ m ∈ ms, Q m.2) → P (.object ms)

theorem yields_valueWith {inner : Option (JsonReader Json)} {Q P : Json → Prop}
    (hclosed : Closed inner Q P) (h : ∀ value ∈ inner, Yields value Q) :
    Yields (valueWith inner) P := by
  unfold valueWith
  refine .after fun b => ?_
  split
  next => exact .after fun _ => .after fun _ => .pure hclosed.null
  next => exact .after fun _ => .after fun _ => .pure (hclosed.bool true)
  next => exact .after fun _ => .after fun _ => .pure (hclosed.bool false)
  next => exact .after fun _ => .map fun _ s _ _ => hclosed.text s
  next =>
    split
    next => exact .failAhead _
    next value =>
      refine .after fun _ => .after fun fuel => ?_
      refine .bind (yields_items (h value rfl) fuel true) fun xs hxs => ?_
      exact .after fun _ => .pure (hclosed.list xs rfl hxs)
  next =>
    split
    next => exact .failAhead _
    next value =>
      refine .after fun _ => .after fun fuel => ?_
      refine .bind (P := fun ms => (ms.Pairwise fun a b => a.1 < b.1) ∧ ∀ m ∈ ms, Q m.2) ?_
        fun ms hms => .after fun _ => .pure (hclosed.object ms rfl hms.1 hms.2)
      refine yields_members (fun ms key hms => ?_) fuel true
        ⟨.nil, fun m hm => absurd hm List.not_mem_nil⟩
      refine .after fun _ => .bind (h value rfl) fun v hv => .pure ?_
      rw [insertMember_eq]
      refine ⟨Table.ordered_putEntry hms.1 key v, fun m hm => ?_⟩
      rcases Table.mem_putEntry hm with rfl | hm
      · exact hv
      · exact hms.2 m hm
  next =>
    split
    next => exact .map fun c n c' hn => hclosed.number n (yields_signedNumber c n c' hn)
    next => exact .failAhead _

theorem closed_writable (inner : Option (JsonReader Json)) :
    Closed inner Json.Writable Json.Writable where
  null := .null
  bool := .bool
  number _ := .number
  text := .text
  list _ _ := .list
  object _ _ _ := .object

/-- Every number of a document that was read has 64 bits or is finite. -/
theorem yields_value (depth : Nat) : Yields (value depth) Json.Writable := by
  induction depth with
  | zero => exact yields_valueWith (closed_writable _) fun value hvalue => nomatch hvalue
  | succ depth ih =>
    refine yields_valueWith (closed_writable _) fun value hvalue => ?_
    obtain rfl := Option.some.inj hvalue
    exact ih

end JsonReader

/-! ## 5. Taking records out of documents -/

namespace JsonShape

section
variable {I : σ → Prop} {fields : List (Field σ)}

theorem of_takeMembers
    (hfields : ∀ f ∈ fields, ∀ draft v draft', I draft → v.Writable → f.2 draft v = .ok draft' →
      I draft')
    {ms : List (String × Json)} (hms : ∀ m ∈ ms, m.2.Writable) {draft draft' : σ}
    (hdraft : I draft) (h : takeMembers fields draft ms = .ok draft') : I draft' := by
  induction ms generalizing draft with
  | nil =>
    obtain rfl := Except.ok.inj h
    exact hdraft
  | cons m ms ih =>
    obtain ⟨key, v⟩ := m
    obtain ⟨hv, hms⟩ := List.forall_mem_cons.mp hms
    unfold takeMembers at h
    split at h
    next => exact ih hms hdraft h
    next f hfind =>
      obtain ⟨next, hnext, h⟩ := Chaining.ok_of_bind h
      exact ih hms (hfields f (List.mem_of_find?_eq_some hfind) _ _ _ hdraft hv hnext) h

theorem of_takeItems {name : String} {count least given : Nat}
    (hfields : ∀ f ∈ fields, ∀ draft v draft', I draft → v.Writable → f.2 draft v = .ok draft' →
      I draft')
    (index : Nat) {xs : List Json} (hxs : ∀ x ∈ xs, x.Writable) {draft draft' : σ}
    (hdraft : I draft) (h : takeItems name count least given index fields draft xs = .ok draft') :
    I draft' := by
  induction fields generalizing index xs draft with
  | nil =>
    cases xs with
    | nil =>
      obtain rfl := Except.ok.inj h
      exact hdraft
    | cons x xs => cases h
  | cons f fields ih =>
    obtain ⟨hfirst, hothers⟩ := List.forall_mem_cons.mp hfields
    cases xs with
    | nil =>
      unfold takeItems at h
      split at h
      next => cases h
      next =>
        obtain rfl := Except.ok.inj h
        exact hdraft
    | cons x xs =>
      obtain ⟨hx, hxs⟩ := List.forall_mem_cons.mp hxs
      obtain ⟨next, hnext, h⟩ := Chaining.ok_of_bind h
      exact ih hothers (index + 1) hxs (hfirst _ _ _ hdraft hx hnext) h

/-- What the blank draft has and every field keeps, the record is built from. -/
theorem of_record {name : String} {least : Nat} {blank : σ} {build : σ → Except String α}
    {P : α → Prop} (hblank : I blank)
    (hfields : ∀ f ∈ fields, ∀ draft v draft', I draft → v.Writable → f.2 draft v = .ok draft' →
      I draft')
    (hbuild : ∀ draft a, I draft → build draft = .ok a → P a) {j : Json} (hj : j.Writable) {a : α}
    (h : record name least fields blank build j = .ok a) : P a := by
  have hbuilt : ∃ draft, I draft ∧ build draft = .ok a := by
    unfold record at h
    cases hj with
    | object hms =>
      obtain ⟨draft, hread, h⟩ := Chaining.ok_of_bind h
      refine ⟨draft, of_takeMembers hfields hms hblank hread, ?_⟩
      dsimp only at h
      split at h
      next a' ha => rw [ha, Except.ok.inj h]
      next => cases h
    | list hxs =>
      obtain ⟨draft, hread, h⟩ := Chaining.ok_of_bind h
      refine ⟨draft, of_takeItems hfields 0 hxs hblank hread, ?_⟩
      simp only [pure_bind] at h
      split at h
      next a' ha => rw [ha, Except.ok.inj h]
      next => cases h
    | null => cases h
    | bool b => cases h
    | number hn => cases h
    | text s => cases h
  obtain ⟨draft, hdraft, ha⟩ := hbuilt
  exact hbuild draft a hdraft ha

end

theorem of_optional {value : Json → Except JsonReason α} {P : α → Prop} {j : Json}
    (hvalue : ∀ a, value j = .ok a → P a) {o : Option α} (h : optional value j = .ok o) :
    ∀ a ∈ o, P a := by
  intro a ha
  unfold optional at h
  split at h
  next =>
    obtain rfl := Except.ok.inj h
    cases ha
  next =>
    cases hj : value j with
    | error e =>
      rw [hj] at h
      cases h
    | ok a' =>
      rw [hj] at h
      obtain rfl := Except.ok.inj h
      obtain rfl := Option.some.inj ha
      exact hvalue _ hj

end JsonShape
end Metering
