import Metering.Proofs.Chaining
import Metering.Store.SnapshotFile

/-!
A file that is replaced and read.

A snapshot file can be replaced where its folder exists and no folder stands in its own place.
What has been put there is read back, whatever stood there before, and the same contents put there
again leave the disk as it is.

Results:
1. `install_of_replaceable`: a replaceable file takes any contents, and stays replaceable.
2. `read_put`: what was put into a file is read back.
3. `put_put`: the same contents again change nothing.
-/
namespace Metering

namespace Disk

/-! ## The folders above a path -/

theorem reach_eq_ok_iff {d : Disk} {path : String} :
    d.reach path = .ok () ↔
      ∀ folder ∈ above [] path.toList, d.nodes.get? folder = some .folder := by
  unfold reach
  induction above [] path.toList with
  | nil =>
    refine ⟨fun _ folder hfolder => ?_, fun _ => rfl⟩
    cases hfolder
  | cons first rest ih =>
    rw [List.forM_eq_forM] at ih ⊢
    rw [List.forM_cons, List.forall_mem_cons, ← ih]
    cases hfirst : d.nodes.get? first with
    | none =>
      refine ⟨fun h => ?_, fun h => ?_⟩
      · cases h
      · cases h.1
    | some node =>
      cases node with
      | file contents =>
        refine ⟨fun h => ?_, fun h => ?_⟩
        · cases h
        · cases h.1
      | folder => exact ⟨fun h => ⟨rfl, h⟩, fun h => h.2⟩

theorem above_append (seen first more : List Char) :
    above seen (first ++ more) = above seen first ++ above (seen ++ first) more := by
  induction first generalizing seen with
  | nil => rw [List.nil_append, List.append_nil]; rfl
  | cons c first ih =>
    rw [List.cons_append, above, above, ih, List.append_assoc]
    split <;> rfl

theorem above_of_no_slash {cs : List Char} (h : '/' ∉ cs) (seen : List Char) :
    above seen cs = [] := by
  induction cs generalizing seen with
  | nil => rfl
  | cons c cs ih =>
    obtain ⟨hc, hcs⟩ := not_or.mp (mt List.mem_cons.mpr h)
    rw [above, if_neg (Ne.symm hc), ih hcs]

/-- A path is cut at its last slash, if it has one. -/
theorem cut_at_last_slash (cs : List Char) :
    '/' ∉ cs ∨ ∃ folder name, cs = folder ++ '/' :: name ∧ '/' ∉ name := by
  induction cs with
  | nil => exact .inl List.not_mem_nil
  | cons c cs ih =>
    rcases ih with hnone | ⟨folder, name, rfl, hname⟩
    · by_cases hc : c = '/'
      · exact .inr ⟨[], cs, by rw [hc]; rfl, hnone⟩
      · exact .inl (mt List.mem_cons.mp (not_or.mpr ⟨Ne.symm hc, hnone⟩))
    · exact .inr ⟨c :: folder, name, rfl, hname⟩

/-- What is above a path is above a temporary file in its folder. -/
theorem above_subset_temporary (path : String) :
    ∀ folder ∈ above [] path.toList, folder ∈ above [] (parent path ++ "/.tmp").toList := by
  intro f hf
  rcases cut_at_last_slash path.toList with hnone | ⟨folder, last, hpath, hlast⟩
  · rw [above_of_no_slash hnone] at hf
    cases hf
  · have habove : above [] path.toList = above [] folder ++ [String.ofList folder] := by
      rw [hpath, above_append, List.nil_append, above, above_of_no_slash hlast, if_pos rfl]
    have hparent : parent path = String.ofList folder := by
      rw [parent, habove, List.getLast?_concat]
    rw [habove] at hf
    have htmp : "/.tmp".toList = '/' :: ".tmp".toList := rfl
    rw [hparent, String.toList_append, String.toList_ofList, above_append, htmp]
    rcases List.mem_append.mp hf with hf | hf
    · exact List.mem_append_left _ hf
    · obtain rfl := List.mem_singleton.mp hf
      exact List.mem_append_right _ List.mem_cons_self

/-- What is put where no folder stands leaves the folders alone. -/
theorem reach_put {d : Disk} {path other : String} (h : d.reach other = .ok ())
    (hfree : d.nodes.get? path ≠ some .folder) (node : DiskNode) :
    (d.put path node).reach other = .ok () := by
  rw [reach_eq_ok_iff] at h ⊢
  intro folder hfolder
  have hne : folder ≠ path := fun heq => hfree (heq ▸ h folder hfolder)
  exact (Table.get?_put_of_ne _ hne _).trans (h folder hfolder)

end Disk

namespace SnapshotFile

/-- The folder of the file can be written to, and no folder stands in the place of the file. -/
structure Replaceable (file : SnapshotFile) (disk : Disk) : Prop where
  reach : disk.reach (Disk.parent file.path ++ "/.tmp") = .ok ()
  free : disk.nodes.get? file.path ≠ some .folder

/-- The disk with the contents of the file. -/
def put (file : SnapshotFile) (data : Bytes) (disk : Disk) : Disk :=
  disk.put file.path (.file data)

variable {file : SnapshotFile} {data : Bytes} {disk disk' : Disk}

/-! ## Replacing -/

theorem get?_put (file : SnapshotFile) (data : Bytes) (disk : Disk) :
    (file.put data disk).nodes.get? file.path = some (.file data) :=
  Table.get?_put_self _ _ _

theorem eq_put_of_install (h : file.install data disk = .ok disk') : disk' = file.put data disk := by
  unfold install Disk.replace at h
  dsimp only at h
  split at h
  next => cases h
  next =>
    split at h
    next => cases h
    next heq =>
      obtain rfl := Except.ok.inj h
      split at heq
      next => cases heq
      next =>
        obtain rfl := Except.ok.inj heq
        rfl

theorem install_of_replaceable (h : file.Replaceable disk) (data : Bytes) :
    file.install data disk = .ok (file.put data disk) := by
  unfold install Disk.replace
  dsimp only
  rw [h.reach]
  dsimp only
  split
  next heq =>
    split at heq
    next hfolder => exact absurd hfolder h.free
    next => cases heq
  next heq =>
    split at heq
    next => cases heq
    next =>
      obtain rfl := Except.ok.inj heq
      rfl

theorem replaceable_put (h : file.Replaceable disk) (data : Bytes) :
    file.Replaceable (file.put data disk) := by
  refine ⟨Disk.reach_put h.reach h.free _, ?_⟩
  rw [get?_put]
  simp

/-! ## Reading -/

/-- What was put into a file is read back. -/
theorem read_put (h : file.Replaceable disk) (data : Bytes) :
    (file.put data disk).read file.path = .ok data := by
  have hreach : (file.put data disk).reach file.path = .ok () := by
    have htemporary := Disk.reach_eq_ok_iff.mp (replaceable_put h data).reach
    exact Disk.reach_eq_ok_iff.mpr fun folder hfolder =>
      htemporary folder (Disk.above_subset_temporary file.path folder hfolder)
  unfold Disk.read
  rw [Chaining.bind_of_ok hreach, get?_put]
  rfl

/-- The same contents again change nothing. -/
theorem put_put (file : SnapshotFile) (data : Bytes) (disk : Disk) :
    file.put data (file.put data disk) = file.put data disk := by
  refine congrArg Disk.mk (Table.ext_get? fun path => ?_)
  by_cases hpath : path = file.path
  · rw [hpath, Table.get?_put_self]
    exact (get?_put file data disk).symm
  · exact Table.get?_put_of_ne _ hpath _

end SnapshotFile
end Metering
