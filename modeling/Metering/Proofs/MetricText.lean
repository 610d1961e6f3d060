import Metering.Metric.Record
import Metering.Proofs.JsonNumbers

/-!
The text of a record holds the record.

Results:
1. `Json.write_object`, `Json.write_list`: a written document as a row of texts.
2. `JsonReader.reads_takeMember`: a field of a record is read from its colon on.
3. `Metric.decodeList_sent`, `Metric.decode_encode`, `Metric.decodeList_encodeList`: records are read
   back without the readings that are not finite, and as they were if every reading is finite.
4. `Metric.mapM_toUpdate`: the records of updates stand for these updates.
-/
namespace Metering

open JsonReader

/-! ## 1. Documents -/

namespace Json

/-- A key, its colon and its value. -/
def memberText (m : String × Json) : Bytes := quote m.1 ++ 0x3a :: write m.2

/-- A key, its colon and, behind a gap, its value. -/
def spacedMember (gap : Bytes) (m : String × Json) : Bytes :=
  quote m.1 ++ 0x3a :: (gap ++ write m.2)

theorem writeMembers_eq (ms : List (String × Json)) :
    writeMembers ms = commaTexts [] (ms.map memberText) ++ [0x7d] := by
  induction ms with
  | nil => rfl
  | cons m ms ih =>
    obtain ⟨k, v⟩ := m
    rw [writeMembers, ih]
    simp [commaTexts, memberText]

theorem writeItems_eq (xs : List Json) :
    writeItems xs = commaTexts [] (xs.map write) ++ [0x5d] := by
  induction xs with
  | nil => rfl
  | cons x xs ih =>
    rw [writeItems, ih]
    simp [commaTexts]

theorem write_object (ms : List (String × Json)) :
    write (.object ms) = 0x7b :: (rowText [] [] (ms.map memberText) ++ [0x7d]) := by
  cases ms with
  | nil => simp [write, rowText]
  | cons m ms =>
    obtain ⟨k, v⟩ := m
    rw [write, writeMembers_eq]
    simp [rowText, memberText]

theorem write_list (xs : List Json) :
    write (.list xs) = 0x5b :: (rowText [] [] (xs.map write) ++ [0x5d]) := by
  cases xs with
  | nil => simp [write, rowText]
  | cons x xs =>
    rw [write, writeItems_eq]
    simp [rowText]

end Json

/-! ## 2. Members -/

namespace JsonReader

/-- A field of a record, from its colon on. -/
theorem reads_takeMember {fields : List (Field σ)} {f : Field σ} {key : String} {draft draft' : σ}
    {t rest : Bytes} (hfind : (fields.find? fun f => f.name == key) = some f)
    (hgiven : f.given draft = false) (h : Reads (f.read draft) t draft' rest) :
    Reads (takeMember fields draft key) (0x3a :: t) draft' rest := by
  unfold takeMember
  rw [hfind]
  dsimp only
  rw [hgiven, if_neg (by decide)]
  have hcolon : Reads colon [0x3a] () (t ++ rest) :=
    Reads.token (by decide) (Reads.bump_self _ _)
  exact hcolon.bind h

section
variable {gap : Bytes} (hgap : Gap gap)
include hgap

theorem reads_text (s : String) (rest : Bytes) : Reads text (gap ++ Json.quote s) s rest := by
  unfold text
  refine (reads_start hgap (by decide) _).bind ?_
  rw [if_pos rfl]
  exact Reads.bump (reads_textBody s rest)

theorem reads_variant {known : List String} {name : String} (h : known.contains name = true)
    (rest : Bytes) : Reads (variant known) (gap ++ Json.quote name) name rest := by
  have hquote : Json.quote name = 0x22 :: ((Bytes.ofText name).flatMap Json.escapeByte ++ [0x22]) :=
    rfl
  rw [hquote]
  unfold variant
  refine Reads.peekToken hgap (by decide) ?_
  show Reads (variantName known) _ name rest
  unfold variantName
  refine Reads.bind_nil (reads_start gap_nil (by decide) _) ?_
  rw [if_pos rfl]
  refine Reads.bump ((reads_textBody name rest).bind_last ?_)
  rw [if_pos h]
  exact Reads.pure _ _

end

/-- A word is read back behind its first letter. -/
theorem reads_word (bs rest : Bytes) : Reads (word bs) bs () rest := by
  induction bs with
  | nil => exact Reads.pure _ _
  | cons b bs ih =>
    unfold word
    refine Reads.peek (Reads.bump ?_)
    rw [if_pos rfl]
    exact ih

/-- Where a value may be left out, `null` leaves it out. -/
theorem reads_optional_null (value : JsonReader α) {gap : Bytes} (hgap : Gap gap) (rest : Bytes) :
    Reads (optional value) (gap ++ Json.write .null) none rest := by
  unfold optional
  refine Reads.peekToken hgap (by decide) (Reads.bump ?_)
  exact (reads_word _ rest).bind_last (Reads.pure _ _)

/-- A number starts with its sign or a digit. -/
theorem numberText_head {n : JsonNumber} (hn : Writable n) :
    ∃ b more, Json.ascii (Json.numberText n) = b :: more ∧ (b = 0x2d ∨ isDigit b = true) := by
  have hdigits : ∀ k, ∃ b more, Json.ascii (Digits.toDigits k) = b :: more ∧
      (b = 0x2d ∨ isDigit b = true) := by
    intro k
    obtain ⟨b, more, h, hb⟩ := ascii_head (fun c hc => Digits.isDigit_of_mem_toDigits hc)
      (Digits.toDigits_ne_nil k)
    exact ⟨b, more, h, .inr hb⟩
  cases n with
  | natural k => exact hdigits k
  | negative i =>
    cases i with
    | ofNat k => exact hdigits k
    | negSucc k => exact ⟨_, _, rfl, .inl rfl⟩
  | binary x =>
    have hx : x.isFinite = true := hn
    obtain ⟨p, htext, hsound, -⟩ := NumberStyle.finite_parts Json.numberStyle hx
    rw [Json.numberText, if_pos hx, htext]
    cases x.negative with
    | true => exact ⟨_, _, rfl, .inl rfl⟩
    | false =>
      cases hp : p.text with
      | nil => exact absurd hp hsound.text_ne_nil
      | cons c cs =>
        refine ⟨_, _, rfl, .inr (digit_byte (hsound.isDigit_head c ?_)).1⟩
        rw [hp]
        rfl

theorem isBlank_of_numberHead {b : UInt8} (h : b = 0x2d ∨ isDigit b = true) :
    JsonCursor.isBlank b = false ∧ b ≠ 0x6e := by
  rcases h with rfl | hdigit
  · exact ⟨by decide, by decide⟩
  · constructor
    · cases hblank : JsonCursor.isBlank b with
      | false => rfl
      | true =>
        have hends : Ends [b] := ends_cons (.inl hblank) []
        rw [noDigit_of_ends hends b rfl] at hdigit
        cases hdigit
    · rintro rfl
      exact absurd hdigit (by decide)

theorem reads_numberOf {expected : String} {accept : JsonNumber → Except JsonReason α}
    {n : JsonNumber} {a : α} (hn : Writable n) (ha : accept n = .ok a) {rest : Bytes}
    (hrest : Ends rest) :
    Reads (numberOf expected accept) (Json.ascii (Json.numberText n)) a rest := by
  obtain ⟨b, more, hhead, hb⟩ := numberText_head hn
  unfold numberOf
  refine Reads.bind_nil (a := b) ?_ ?_
  · rw [hhead]
    exact reads_start gap_nil (isBlank_of_numberHead hb).1 _
  rw [if_pos hb]
  refine (reads_signedNumber hn hrest).bind_last ?_
  rw [ha]
  exact Reads.pure _ _

theorem reads_optional_number {expected : String} {accept : JsonNumber → Except JsonReason α}
    {n : JsonNumber} {a : α} {gap : Bytes} (hgap : Gap gap) (hn : Writable n)
    (ha : accept n = .ok a) {rest : Bytes} (hrest : Ends rest) :
    Reads (optional (numberOf expected accept)) (gap ++ Json.ascii (Json.numberText n)) (some a)
      rest := by
  obtain ⟨b, more, hhead, hb⟩ := numberText_head hn
  obtain ⟨hblank, hnull⟩ := isBlank_of_numberHead hb
  have hnumber : Reads (numberOf expected accept) _ a rest := reads_numberOf hn ha hrest
  rw [hhead] at hnumber ⊢
  unfold optional
  refine Reads.peekToken hgap hblank ?_
  split
  next h => exact absurd (Option.some.inj h) hnull
  next => exact hnumber.map some

end JsonReader

/-! ## 3. Records -/

namespace Metric

/-- Every reading of the record is finite. -/
def Finite (m : Metric) : Prop := ∀ x ∈ m.value, x.isFinite = true

/-- The record as it arrives: a reading that is not finite is written `null` and read as none. -/
def sent (m : Metric) : Metric := { m with value := m.value.filter Binary64.isFinite }

theorem sent_of_finite {m : Metric} (hm : m.Finite) : m.sent = m := by
  obtain ⟨id, kind, delta, value⟩ := m
  cases value with
  | none => rfl
  | some x => simp [sent, Option.filter, hm x rfl]

theorem writable_int (d : Int64) :
    Writable (if 0 ≤ d.toInt then .natural d.toInt.toNat else .negative d.toInt) := by
  have hlow := d.le_toInt
  have hhigh := d.toInt_lt
  split
  · show d.toInt.toNat < _
    omega
  · exact ⟨by omega, by omega⟩

theorem acceptDelta_int (d : Int64) :
    acceptDelta (if 0 ≤ d.toInt then .natural d.toInt.toNat else .negative d.toInt) = .ok d := by
  have hhigh := d.toInt_lt
  unfold acceptDelta
  split
  next h =>
    show (if d.toInt.toNat < 0x8000000000000000 then _ else _) = _
    rw [if_pos (by omega)]
    rw [← Int64.ofInt_eq_ofNat, Int.toNat_of_nonneg h, Int64.ofInt_toInt]
  next h =>
    show Except.ok (Int64.ofInt d.toInt) = _
    rw [Int64.ofInt_toInt]

/-! The fields, each from its colon on, with any blanks behind the colon. -/

section
variable {gap : Bytes} (hgap : Gap gap)
include hgap

theorem reads_id (d : Draft) (hd : d.id.isSome = false) (id : String) (rest : Bytes) :
    Reads (takeMember shape.fields d "id") (0x3a :: (gap ++ Json.write (.text id)))
      { d with id := some id } rest := by
  refine reads_takeMember rfl hd ?_
  exact (reads_text hgap id rest).bind_last (Reads.pure _ _)

theorem reads_kind (d : Draft) (hd : d.kind.isSome = false) (kind : Kind) (rest : Bytes) :
    Reads (takeMember shape.fields d "type") (0x3a :: (gap ++ Json.write (.text kind.name)))
      { d with kind := some kind } rest := by
  refine reads_takeMember rfl hd ?_
  have hknown : Kind.names.contains kind.name = true := by cases kind <;> decide
  refine (reads_variant hgap hknown rest).bind_last ?_
  rw [Kind.ofName?_name]
  exact Reads.pure _ _

theorem reads_delta (d : Draft) (hd : d.delta.isSome = false) (delta : Int64) {rest : Bytes}
    (hrest : Ends rest) :
    Reads (takeMember shape.fields d "delta") (0x3a :: (gap ++ Json.write (Json.int delta.toInt)))
      { d with delta := some (some delta) } rest := by
  refine reads_takeMember rfl hd ?_
  exact (reads_optional_number hgap (writable_int delta) (acceptDelta_int delta) hrest).bind_last
    (Reads.pure _ _)

theorem reads_value (d : Draft) (hd : d.value.isSome = false) (value : Binary64) {rest : Bytes}
    (hrest : Ends rest) :
    Reads (takeMember shape.fields d "value") (0x3a :: (gap ++ Json.write (Json.binary value)))
      { d with value := some ((some value).filter Binary64.isFinite) } rest := by
  refine reads_takeMember rfl hd (Reads.bind_last ?_ (Reads.pure _ _))
  cases hvalue : value.isFinite with
  | true =>
    have haccept : acceptReading (.binary value) = .ok value := rfl
    rw [Option.filter_some_pos hvalue]
    exact reads_optional_number (n := .binary value) hgap hvalue haccept hrest
  | false =>
    have hnull : Json.write (Json.binary value) = Json.write .null := by
      simp only [Json.binary, Json.write, Json.numberText, hvalue]
      rfl
    rw [hnull, Option.filter_some_neg (by simp [hvalue])]
    exact reads_optional_null _ hgap rest

/-- The fields of a record in the order in which they are written. -/
theorem membersText (m : Metric) :
    ∃ members, m.toJson = .object members ∧
      MembersText (takeMember shape.fields) Draft.blank (members.map (Json.spacedMember gap))
        ⟨some m.id, some m.kind, m.delta.map some,
          m.value.map fun x => (some x).filter Binary64.isFinite⟩ := by
  obtain ⟨id, kind, delta, value⟩ := m
  refine ⟨_, rfl, ?_⟩
  refine .cons (fun rest _ => reads_id hgap _ rfl id rest) ?_
  refine .cons (fun rest _ => reads_kind hgap _ rfl kind rest) ?_
  -- The two optional fields are there or not, each for itself.
  cases delta with
  | none =>
    cases value with
    | none => exact .nil
    | some x => exact .cons (fun _ hrest => reads_value hgap _ rfl x hrest) .nil
  | some d =>
    refine .cons (fun _ hrest => reads_delta hgap _ rfl d hrest) ?_
    cases value with
    | none => exact .nil
    | some x => exact .cons (fun _ hrest => reads_value hgap _ rfl x hrest) .nil

/-- A record is read back from its fields, with any blanks between them. -/
theorem reads_spaced_sent {before last : Bytes} (hbefore : Gap before) (hlast : Gap last)
    (m : Metric) :
    ∃ members, m.toJson = .object members ∧ ∀ rest, Reads reader
      (0x7b :: (rowText before last (members.map (Json.spacedMember gap)) ++ [0x7d])) m.sent
      rest := by
  obtain ⟨members, hjson, hmembers⟩ := membersText hgap m
  refine ⟨members, hjson, reads_record hbefore hlast hmembers ?_⟩
  obtain ⟨id, kind, delta, value⟩ := m
  cases delta <;> cases value <;> rfl

theorem reads_spaced {before last : Bytes} (hbefore : Gap before) (hlast : Gap last) (m : Metric)
    (hm : m.Finite) :
    ∃ members, m.toJson = .object members ∧ ∀ rest, Reads reader
      (0x7b :: (rowText before last (members.map (Json.spacedMember gap)) ++ [0x7d])) m rest := by
  have hsent := reads_spaced_sent hgap hbefore hlast m
  rwa [sent_of_finite hm] at hsent

end

/-- A record is read back where a value may stand. -/
theorem valueText_encode (m : Metric) : ValueText reader m.encode m.sent := by
  obtain ⟨members, hjson, hreads⟩ := reads_spaced_sent gap_nil gap_nil gap_nil m
  have htext : m.encode = 0x7b :: (rowText [] [] (members.map Json.memberText) ++ [0x7d]) := by
    rw [encode, hjson, Json.write_object]
  rw [htext]
  exact ⟨⟨_, _, rfl, by decide, by decide⟩, fun rest _ => hreads rest⟩

/-- A record is read back from its text. -/
theorem decode_encode (m : Metric) (hm : m.Finite) : decode m.encode = .ok m := by
  have hreads := (valueText_encode m).reads [] fun _ h => nomatch h
  rw [sent_of_finite hm] at hreads
  exact run_of_reads hreads

/-- A list of records is read back from its text, without the readings that are not finite. -/
theorem decodeList_sent (ms : List Metric) : decodeList (encodeList ms) = .ok (ms.map sent) := by
  have htexts : List.Forall₂ (ValueText reader) (ms.map encode) (ms.map sent) := by
    induction ms with
    | nil => exact .nil
    | cons m ms ih => exact .cons (valueText_encode m) ih
  have htext : encodeList ms = 0x5b :: (rowText [] [] (ms.map encode) ++ [0x5d]) := by
    rw [encodeList, listToJson, Json.write_list, List.map_map]
    rfl
  rw [htext]
  exact run_of_reads (reads_list gap_nil gap_nil htexts [])

theorem decodeList_encodeList (ms : List Metric) (hms : ∀ m ∈ ms, m.Finite) :
    decodeList (encodeList ms) = .ok ms := by
  rw [decodeList_sent, List.map_congr_left fun m hm => sent_of_finite (hms m hm), List.map_id']

/-! ## 4. The records of updates -/

theorem finite_ofUpdate {u : Update} (h : u.value.isEncodable = true) :
    (ofUpdate u).Finite := by
  obtain ⟨id, value⟩ := u
  intro x hx
  cases value with
  | gauge y =>
    obtain rfl := Option.some.inj hx
    exact h
  | counter d => cases hx

theorem mapM_toUpdate {us : List Update} (h : ∀ u ∈ us, u.id ≠ "") :
    (us.map ofUpdate).mapM toUpdate = .ok us := by
  induction us with
  | nil => rfl
  | cons u us ih =>
    rw [List.map_cons, List.mapM_cons,
      Chaining.bind_of_ok (toUpdate_ofUpdate (h u List.mem_cons_self)),
      Chaining.bind_of_ok (ih fun v hv => h v (List.mem_cons_of_mem u hv))]
    rfl

end Metric
end Metering
