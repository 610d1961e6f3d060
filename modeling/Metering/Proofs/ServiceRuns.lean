import Metering.Ingest.Layers
import Metering.Proofs.BatchFold

/-!
What the tasks of a service come to on a ledger.

A task is a dialogue of steps. Run alone on a ledger it has one outcome, and each lemma here names
it: a write is the fold of its updates and, if that is accepted, the follow-up; a read is an
answer and no change. Later proofs use these outcomes and do not follow the steps again.

Results:
1. `run_saveTask`, `run_afterWrite`: the follow-up of a write leaves the ledger alone.
2. `run_update`, `run_updateAll`: both kinds of write are one fold.
3. `run_read`: reading changes nothing.
4. `kind_of_foldlM_error`: a fold is refused for an overflow and for nothing else.
-/
namespace Metering

namespace ServerTask

theorem run_map (store : Store σ) (f : α → β) (t : ServerTask α) (s : ServerState σ) :
    (t.map f).run store s = (f (t.run store s).1, (t.run store s).2) := by
  rw [map, run_andThen]
  rfl

end ServerTask

namespace StoreTask

theorem run_listing (l : Ledger) : listing.run Ledger.store l = (.ok l.toRecords, l) := rfl

theorem run_apply (u : Update) (l : Ledger) :
    (apply u).run Ledger.store l =
      match l.apply u with
      | .ok l' => (.ok (), l')
      | .error e => (.error e, l) := by
  obtain ⟨id, value⟩ := u
  cases value with
  | gauge x => rfl
  | counter d =>
    cases h : l.addCounter id d with
    | error e => simp [apply, single, run, Ledger.store, Ledger.answer, Ledger.apply, h]
    | ok l' => simp [apply, single, run, Ledger.store, Ledger.answer, Ledger.apply, h]

theorem run_batch (us : List Update) (l : Ledger) :
    (single (.batch us)).run Ledger.store l =
      match us.foldlM Ledger.apply l with
      | .ok l' => (.ok (), l')
      | .error e => (.error e, l) := by
  cases h : us.foldlM Ledger.apply l with
  | error e => simp [single, run, Ledger.store, Ledger.answer, Ledger.applyAll_eq_foldlM, h]
  | ok l' => simp [single, run, Ledger.store, Ledger.answer, Ledger.applyAll_eq_foldlM, h]

theorem run_read (kind : Kind) (id : String) (l : Ledger) :
    (read kind id).run Ledger.store l = (.ok (l.get? kind id), l) := by
  cases kind <;> rfl

end StoreTask

/-! ## 1. The follow-up of a write -/

/-- The disk after a save: the file is replaced, or everything is as before. -/
def SnapshotFile.saved (file : SnapshotFile) (l : Ledger) (disk : Disk) : Disk :=
  match file.install (contents l.toRecords) disk with
  | .ok disk => disk
  | .error _ => disk

theorem SnapshotFile.run_saveTask (file : SnapshotFile) (s : ServerState Ledger) :
    (file.saveTask.run Ledger.store s).2 = { s with disk := file.saved s.store s.disk } := by
  simp only [saveTask, ServerTask.run, ServerTask.run_andThen, ServerTask.run_ofStore,
    StoreTask.run_listing, ServerStep.take, SnapshotFile.saved]
  cases file.install (contents s.store.toRecords) s.disk <;> rfl

namespace Service

/-- The state after the follow-up of a write: saved, if that is asked for and works, and with the
event in every inbox, if there is an audit trail. -/
def followed (v : Service) (ids : List String) (source : Option String) (s : ServerState Ledger) :
    ServerState Ledger where
  store := s.store
  disk := match v.savesTo with
    | some file => file.saved s.store s.disk
    | none => s.disk
  inboxes := if v.audits then s.inboxes.publish ⟨s.time, ids, source.getD ""⟩ else s.inboxes
  time := s.time

@[simp] theorem followed_store (v : Service) (ids : List String) (source : Option String)
    (s : ServerState Ledger) : (v.followed ids source s).store = s.store := rfl

theorem run_afterWrite (v : Service) (ids : List String) (source : Option String)
    (s : ServerState Ledger) :
    (v.afterWrite ids source).run Ledger.store s = ((), v.followed ids source s) := by
  obtain ⟨savesTo, audits⟩ := v
  cases savesTo with
  | none => cases audits <;> rfl
  | some file =>
    simp only [afterWrite, ServerTask.run_andThen, SnapshotFile.run_saveTask]
    cases audits <;> rfl

/-! ## 2. Writing -/

theorem run_write (v : Service) (task : StoreTask Unit) (ids : List String)
    (source : Option String) (s : ServerState Ledger) :
    (v.write task ids source).run Ledger.store s =
      match task.run Ledger.store s.store with
      | (.ok (), l) => (.ok (), v.followed ids source { s with store := l })
      | (.error e, l) => (.error (.fault e), { s with store := l }) := by
  rw [write, ServerTask.run_andThen, ServerTask.run_ofStore]
  obtain ⟨answer, l⟩ := task.run Ledger.store s.store
  cases answer with
  | error e => rfl
  | ok =>
    show ((v.afterWrite ids source).map Except.ok).run Ledger.store _ = _
    rw [ServerTask.run_map, run_afterWrite]

/-- A batch is one fold, and what follows a write follows it only if it was accepted. -/
theorem run_updateAll (v : Service) (us : List Update) (source : Option String)
    (s : ServerState Ledger) :
    (v.updateAll us source).run Ledger.store s =
      match us.foldlM Ledger.apply s.store with
      | .ok l => (.ok (), v.followed (us.map Update.id) source { s with store := l })
      | .error e => (.error (.fault e), s) := by
  rw [updateAll, run_write, StoreTask.run_batch]
  cases us.foldlM Ledger.apply s.store <;> rfl

/-- A single update is the batch of itself. -/
theorem run_update (v : Service) (u : Update) (source : Option String) (s : ServerState Ledger) :
    (v.update u source).run Ledger.store s = (v.updateAll [u] source).run Ledger.store s := by
  have hfold : [u].foldlM Ledger.apply s.store = s.store.apply u := by
    rw [List.foldlM_cons]
    exact bind_pure _
  rw [run_updateAll, hfold, update, run_write, StoreTask.run_apply]
  cases s.store.apply u <;> rfl

/-! ## 3. Reading -/

theorem run_read (kind : Kind) (id : String) (s : ServerState Ledger) :
    (read kind id).run Ledger.store s =
      (match s.store.get? kind id with
        | some v => .ok v
        | none => .error (.failure ⟨.notFound, .metric kind.name id⟩), s) := by
  rw [read, ServerTask.run_map, ServerTask.run_ofStore, StoreTask.run_read]
  cases s.store.get? kind id <;> rfl

end Service

/-! ## 4. Why a write is refused -/

namespace Ledger

theorem kind_of_apply_error {l : Ledger} {u : Update} {e : StoreFault}
    (h : l.apply u = .error e) : e.kind = .counterOverflow := by
  obtain ⟨id, value⟩ := u
  cases value with
  | gauge x => cases h
  | counter d =>
    simp only [apply, addCounter, total, bind, Except.bind] at h
    split at h
    next e' he =>
      split at he
      next => cases he
      next =>
        obtain rfl := Except.error.inj he
        obtain rfl := Except.error.inj h
        rfl
    next => cases h

theorem kind_of_foldlM_error {l : Ledger} {us : List Update} {e : StoreFault}
    (h : us.foldlM apply l = .error e) : e.kind = .counterOverflow := by
  induction us generalizing l with
  | nil => cases h
  | cons u us ih =>
    rw [List.foldlM_cons] at h
    cases hu : l.apply u with
    | error e' =>
      rw [hu] at h
      obtain rfl := Except.error.inj h
      exact kind_of_apply_error hu
    | ok m =>
      rw [hu] at h
      exact ih h

end Ledger
end Metering
