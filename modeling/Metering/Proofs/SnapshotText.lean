import Metering.Proofs.MetricText
import Metering.Store.SnapshotFile

/-!
The contents of a snapshot file are read back.

An indented document differs from one without blanks in the gaps alone: a new line in front of
every item and every closing bracket, and a blank behind every colon. Readers pass over gaps, so
what is left is to find the gaps in the writer.

Results:
1. `Json.writeIndented_list`, `Json.writeIndented_object`: an indented document as a row of texts.
2. `Metric.valueText_indented`: an indented record is read back.
3. `SnapshotFile.parse_contents`: so is the whole file, whatever its records are, if they can be
   written at all.
-/
namespace Metering

open JsonReader

/-! ## 1. Documents -/

namespace Json

theorem gap_newLine (level : Nat) : Gap (newLine level) := by
  intro b hb
  rcases List.mem_cons.mp hb with rfl | hb
  · rfl
  · rw [(List.mem_replicate.mp hb).2]
    rfl

theorem indentedItems_eq (level : Nat) (xs : List Json) :
    indentedItems level xs =
      commaTexts (newLine (level + 1)) (xs.map (writeIndented (level + 1))) ++
        (newLine level ++ [0x5d]) := by
  induction xs with
  | nil => rfl
  | cons x xs ih =>
    rw [indentedItems, ih]
    simp [commaTexts]

theorem writeIndented_list (level : Nat) (x : Json) (xs : List Json) :
    writeIndented level (.list (x :: xs)) =
      0x5b :: (rowText (newLine (level + 1)) (newLine level)
        ((x :: xs).map (writeIndented (level + 1))) ++ [0x5d]) := by
  rw [writeIndented, indentedItems_eq]
  simp [rowText]

/-- A document that is written on one line, at every level. -/
def OneLine (j : Json) : Prop := ∀ level, writeIndented level j = write j

theorem oneLine_text (s : String) : OneLine (.text s) := fun _ => by rw [writeIndented]

theorem oneLine_number (n : JsonNumber) : OneLine (.number n) := fun _ => by rw [writeIndented]

theorem indentedMembers_eq (level : Nat) {ms : List (String × Json)}
    (h : ∀ m ∈ ms, OneLine m.2) :
    indentedMembers level ms =
      commaTexts (newLine (level + 1)) (ms.map (spacedMember [0x20])) ++
        (newLine level ++ [0x7d]) := by
  induction ms with
  | nil => rfl
  | cons m ms ih =>
    obtain ⟨k, v⟩ := m
    obtain ⟨hv, hms⟩ := List.forall_mem_cons.mp h
    rw [indentedMembers, ih hms, hv]
    simp [commaTexts, spacedMember]

/-- An object of one-line values has one line for each of them. -/
theorem writeIndented_object (level : Nat) {m : String × Json} {ms : List (String × Json)}
    (h : ∀ member ∈ m :: ms, OneLine member.2) :
    writeIndented level (.object (m :: ms)) =
      0x7b :: (rowText (newLine (level + 1)) (newLine level)
        ((m :: ms).map (spacedMember [0x20])) ++ [0x7d]) := by
  obtain ⟨k, v⟩ := m
  obtain ⟨hv, hms⟩ := List.forall_mem_cons.mp h
  rw [writeIndented, indentedMembers_eq level hms, hv]
  simp [rowText, spacedMember]

end Json

/-! ## 2. Records -/

namespace Metric

open Json

theorem oneLine_members {m : Metric} {members : List (String × Json)}
    (h : m.toJson = .object members) : ∀ member ∈ members, OneLine member.2 := by
  obtain ⟨id, kind, delta, value⟩ := m
  obtain rfl := Json.object.inj h
  cases delta <;> cases value <;>
    simp [Json.int, Json.binary, oneLine_text, oneLine_number]

theorem gap_blank : Gap [0x20] := fun b hb => by
  rw [List.mem_singleton.mp hb]
  rfl

/-- A record that is written over several lines is read back where a value may stand. -/
theorem valueText_indented (level : Nat) (m : Metric) (hm : m.Finite) :
    ValueText reader (m.toJson.writeIndented level) m := by
  obtain ⟨members, hjson, hreads⟩ :=
    reads_spaced gap_blank (gap_newLine (level + 1)) (gap_newLine level) m hm
  obtain ⟨first, more, rfl⟩ : ∃ first more, members = first :: more := ⟨_, _, (object.inj hjson).symm⟩
  rw [hjson, writeIndented_object level (oneLine_members hjson)]
  exact ⟨⟨_, _, rfl, by decide, by decide⟩, fun rest _ => hreads rest⟩

/-- The records that were written to a snapshot file are read back from its contents. -/
theorem decodeList_contents {ms : List Metric} (hms : ∀ m ∈ ms, m.Finite) :
    decodeList (SnapshotFile.contents ms) = .ok ms := by
  cases ms with
  | nil => exact run_of_reads (reads_list gap_nil gap_nil .nil [])
  | cons m ms =>
    have htexts : List.Forall₂ (ValueText reader)
        ((m :: ms).map fun m => m.toJson.writeIndented 1) (m :: ms) := by
      rw [List.forall₂_map_left_iff]
      exact List.forall₂_same.mpr fun m hm => valueText_indented 1 m (hms m hm)
    have htext : SnapshotFile.contents (m :: ms) =
        0x5b :: (rowText (newLine 1) (newLine 0)
          ((m :: ms).map fun m => m.toJson.writeIndented 1) ++ [0x5d]) := by
      rw [SnapshotFile.contents, listToJson, List.map_cons, writeIndented_list, ← List.map_cons,
        List.map_map]
      rfl
    rw [htext]
    exact run_of_reads (reads_list (gap_newLine 1) (gap_newLine 0) htexts [])

end Metric

/-! ## 3. The file -/

namespace SnapshotFile

/-- Contents start with a bracket, which is no blank. -/
theorem contents_not_blank (ms : List Metric) : (contents ms).all isBlank = false := by
  cases ms with
  | nil => rfl
  | cons m ms =>
    rw [contents, Metric.listToJson, List.map_cons, Json.writeIndented_list]
    rfl

/-- What was written is what the file holds. -/
theorem parse_contents (file : SnapshotFile) {ms : List Metric} (hms : ∀ m ∈ ms, m.Finite) :
    file.parse (contents ms) = .ok ms := by
  unfold parse
  rw [contents_not_blank, if_neg (by decide), Metric.decodeList_contents hms]

end SnapshotFile
end Metering
