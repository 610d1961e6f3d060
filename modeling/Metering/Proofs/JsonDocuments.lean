import Metering.Proofs.MetricText

/-!
A document is read back from its text.

Reading puts a document into the form in which it is held (`Json.kept`): the members of an object
are sorted by key, of a repeated key only the last value is left, and a number that is not finite
has become `null`. Nothing else is lost, if every whole number has 64 bits and the brackets do not
nest deeper than the reader goes (`Json.Fits`).

Results:
1. `Json.keptItems_eq`: a list is kept item by item.
2. `JsonReader.valueText_write`: wherever a value may stand, a document that fits is read back as
   it is kept.
-/
namespace Metering

namespace Json

/-- A number as it is held; what is not finite was written `null`. -/
def keptNumber : JsonNumber → Json
  | .binary x => if x.isFinite then .number (.binary x) else .null
  | n => .number n

mutual

/-- The document as it is held once it has been read. -/
def kept : Json → Json
  | .null => .null
  | .bool b => .bool b
  | .number n => keptNumber n
  | .text s => .text s
  | .list xs => .list (keptItems xs)
  | .object ms => .object (keptMembers [] ms)

def keptItems : List Json → List Json
  | [] => []
  | x :: xs => kept x :: keptItems xs

/-- Members are put in their places one after another. -/
def keptMembers (held : List (String × Json)) : List (String × Json) → List (String × Json)
  | [] => held
  | (key, v) :: ms => keptMembers (insertMember key (kept v) held) ms

end

theorem keptItems_eq (xs : List Json) : keptItems xs = xs.map kept := by
  induction xs with
  | nil => rfl
  | cons x xs ih => rw [keptItems, ih, List.map_cons]

theorem kept_int (i : Int) : (Json.int i).kept = Json.int i := by
  unfold Json.int
  split <;> rfl

/-- A whole number has 64 bits. -/
def Exact : JsonNumber → Prop
  | .natural n => n < 0x10000000000000000
  | .negative i => -0x8000000000000000 ≤ i ∧ i < 0
  | .binary _ => True

/-- A number that is read back as it was written is exact. -/
theorem exact_of_writable {n : JsonNumber} (h : JsonReader.Writable n) : Exact n := by
  cases n with
  | natural k => exact h
  | negative i => exact h
  | binary x => trivial

/-- Whole numbers have 64 bits, and no more than `depth` brackets are open at once. -/
inductive Fits : Nat → Json → Prop
  | null {depth : Nat} : Fits depth .null
  | bool {depth : Nat} (b : Bool) : Fits depth (.bool b)
  | number {depth : Nat} {n : JsonNumber} : Exact n → Fits depth (.number n)
  | text {depth : Nat} (s : String) : Fits depth (.text s)
  | list {depth : Nat} {xs : List Json} : (∀ x ∈ xs, Fits depth x) → Fits (depth + 1) (.list xs)
  | object {depth : Nat} {ms : List (String × Json)} :
    (∀ m ∈ ms, Fits depth m.2) → Fits (depth + 1) (.object ms)

end Json

namespace JsonReader

open JsonCursor

/-! ## 1. Scalars -/

section
variable (inner : Option (JsonReader Json))

theorem valueText_null : ValueText (valueWith inner) (Json.write .null) .null := by
  refine ⟨⟨_, _, rfl, by decide, by decide⟩, fun rest _ => ?_⟩
  refine Reads.bind_nil (a := 0x6e) (reads_start gap_nil (by decide) _) (Reads.bump ?_)
  exact (reads_word _ rest).bind_last (Reads.pure _ _)

theorem valueText_bool (b : Bool) :
    ValueText (valueWith inner) (Json.write (.bool b)) (.bool b) := by
  cases b with
  | true =>
    refine ⟨⟨_, _, rfl, by decide, by decide⟩, fun rest _ => ?_⟩
    refine Reads.bind_nil (a := 0x74) (reads_start gap_nil (by decide) _) (Reads.bump ?_)
    exact (reads_word _ rest).bind_last (Reads.pure _ _)
  | false =>
    refine ⟨⟨_, _, rfl, by decide, by decide⟩, fun rest _ => ?_⟩
    refine Reads.bind_nil (a := 0x66) (reads_start gap_nil (by decide) _) (Reads.bump ?_)
    exact (reads_word _ rest).bind_last (Reads.pure _ _)

theorem valueText_text (s : String) :
    ValueText (valueWith inner) (Json.write (.text s)) (.text s) := by
  refine ⟨⟨_, _, rfl, by decide, by decide⟩, fun rest _ => ?_⟩
  refine Reads.bind_nil (a := 0x22) (reads_start gap_nil (by decide) _) (Reads.bump ?_)
  exact (reads_textBody s rest).map Json.text

/-- A byte that may start a number starts nothing else. -/
theorem valueWith_of_number {b : UInt8} (hb : b = 0x2d ∨ isDigit b = true) {t rest : Bytes}
    {n : JsonNumber} (h : Reads signedNumber (b :: t) n rest) :
    Reads (valueWith inner) (b :: t) (.number n) rest := by
  have hblank := (isBlank_of_numberHead hb).1
  unfold valueWith
  refine Reads.bind_nil (reads_start gap_nil hblank _) ?_
  split
  next => exact absurd hb (by decide)
  next => exact absurd hb (by decide)
  next => exact absurd hb (by decide)
  next => exact absurd hb (by decide)
  next => exact absurd hb (by decide)
  next => exact absurd hb (by decide)
  next =>
    rw [if_pos hb]
    exact h.map Json.number

theorem valueText_writable {n : JsonNumber} (hn : Writable n) :
    ValueText (valueWith inner) (Json.write (.number n)) (.number n) := by
  obtain ⟨b, more, hhead, hb⟩ := numberText_head hn
  have hwrite : Json.write (.number n) = b :: more := hhead
  rw [hwrite]
  refine ⟨⟨b, more, rfl, (isBlank_of_numberHead hb).1, ?_⟩, fun rest hrest => ?_⟩
  · rintro rfl
    exact absurd hb (by decide)
  · refine valueWith_of_number inner hb ?_
    rw [← hhead]
    exact reads_signedNumber hn hrest

theorem valueText_number {n : JsonNumber} (hn : Json.Exact n) :
    ValueText (valueWith inner) (Json.write (.number n)) (Json.keptNumber n) := by
  cases n with
  | natural k => exact valueText_writable inner hn
  | negative i => exact valueText_writable inner hn
  | binary x =>
    cases hx : x.isFinite with
    | true =>
      rw [Json.keptNumber, if_pos hx]
      exact valueText_writable inner hx
    | false =>
      have hnull : Json.write (.number (.binary x)) = Json.write .null := by
        simp only [Json.write, Json.numberText, hx]
        rfl
      rw [hnull, Json.keptNumber, if_neg (by simp [hx])]
      exact valueText_null inner

end

/-! ## 2. Brackets -/

section
variable {p : JsonReader Json}

theorem valueText_list {xs : List Json} (h : ∀ x ∈ xs, ValueText p x.write x.kept) :
    ValueText (valueWith (some p)) (Json.write (.list xs)) (Json.kept (.list xs)) := by
  have hitems : List.Forall₂ (ValueText p) (xs.map Json.write) (xs.map Json.kept) := by
    rw [List.forall₂_map_left_iff, List.forall₂_map_right_iff, List.forall₂_same]
    exact h
  rw [Json.write_list, Json.kept, Json.keptItems_eq]
  refine ⟨⟨_, _, rfl, by decide, by decide⟩, fun rest _ => ?_⟩
  refine Reads.bind_nil (a := 0x5b) (reads_start gap_nil (by decide) _) (Reads.bump ?_)
  exact reads_bracketed gap_nil gap_nil hitems Json.list rest

/-- How a member of a document is read, and put in its place. -/
def keepMember (p : JsonReader Json) (held : List (String × Json)) (key : String) :
    JsonReader (List (String × Json)) := do
  colon
  let v ← p
  pure (Json.insertMember key v held)

theorem membersText_keepMember {ms : List (String × Json)}
    (h : ∀ m ∈ ms, ValueText p m.2.write m.2.kept) (held : List (String × Json)) :
    MembersText (keepMember p) held (ms.map Json.memberText) (Json.keptMembers held ms) := by
  induction ms generalizing held with
  | nil => exact .nil
  | cons m ms ih =>
    obtain ⟨hfirst, hothers⟩ := List.forall_mem_cons.mp h
    refine .cons (fun rest hrest => ?_) (ih hothers _)
    have hcolon : Reads colon [0x3a] () (m.2.write ++ rest) :=
      Reads.token (by decide) (Reads.bump_self _ _)
    exact hcolon.bind ((hfirst.reads rest hrest).bind_last (Reads.pure _ _))

theorem valueText_object {ms : List (String × Json)}
    (h : ∀ m ∈ ms, ValueText p m.2.write m.2.kept) :
    ValueText (valueWith (some p)) (Json.write (.object ms)) (Json.kept (.object ms)) := by
  rw [Json.write_object, Json.kept]
  refine ⟨⟨_, _, rfl, by decide, by decide⟩, fun rest _ => ?_⟩
  refine Reads.bind_nil (a := 0x7b) (reads_start gap_nil (by decide) _) ?_
  exact reads_braced gap_nil gap_nil (membersText_keepMember h []) rfl rest

end

/-! ## 3. Documents -/

/-- The reader for what stands inside brackets, if those may be opened. -/
def inside : Nat → Option (JsonReader Json)
  | 0 => none
  | depth + 1 => some (value depth)

/-- What a reader does with a scalar does not depend on how deep it may go. -/
theorem value_eq (depth : Nat) : value depth = valueWith (inside depth) := by
  cases depth <;> rfl

/-- Wherever a value may stand, a document that fits is read back as it is kept. -/
theorem valueText_write {depth : Nat} {j : Json} (h : j.Fits depth) :
    ValueText (value depth) j.write j.kept := by
  induction h with
  | null => exact value_eq _ ▸ valueText_null _
  | bool b => exact value_eq _ ▸ valueText_bool _ b
  | number hn => exact value_eq _ ▸ valueText_number _ hn
  | text s => exact value_eq _ ▸ valueText_text _ s
  | list _ ih => exact valueText_list ih
  | object _ ih => exact valueText_object ih

end JsonReader
end Metering
