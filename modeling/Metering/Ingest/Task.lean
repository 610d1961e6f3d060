import Metering.Ingest.Audit
import Metering.Store.SnapshotFile

/-!
What a server does, step by step.

A `ServerStep` is indivisible: a call to the store, taking or giving back the right to save,
replacing the snapshot file, or publishing an event. A `ServerTask` is a dialogue of steps that
ends in an answer; handling a request is one such task. A task that runs alone gets the right to
save whenever it asks for it.

Main statements: continuing twice is continuing once (`andThen_assoc`), running a continued task
is running its parts in turn (`run_andThen`), and the calls of a store task change nothing but the
store (`run_ofStore`).
-/
namespace Metering

/-- One indivisible step. -/
inductive ServerStep : Type → Type 1
  | store {α : Type} (call : StoreCall α) : ServerStep (Except StoreFault α)
  | beginSave : ServerStep Unit
  | replaceFile (file : SnapshotFile) (metrics : List Metric) : ServerStep (Except StoreFault Unit)
  | endSave : ServerStep Unit
  | publish (metrics : List String) (source : String) : ServerStep Unit

/-- Everything that steps change. -/
structure ServerState (σ : Type) where
  store : σ
  disk : Disk
  inboxes : Inboxes
  time : Int64

/-- A dialogue of steps that ends in an answer. -/
inductive ServerTask (α : Type) : Type 1
  | done (answer : α)
  | step {β : Type} (s : ServerStep β) (next : β → ServerTask α)

namespace ServerStep

/-- Takes a step. -/
def take (store : Store σ) : {β : Type} → ServerStep β → ServerState σ → β × ServerState σ
  | _, .store call, s =>
    let (r, inner) := store.call call s.store
    (r, { s with store := inner })
  | _, beginSave, s => ((), s)
  | _, replaceFile file metrics, s =>
    match file.install (SnapshotFile.contents metrics) s.disk with
    | .ok disk => (.ok (), { s with disk := disk })
    | .error e => (.error e, s)
  | _, endSave, s => ((), s)
  | _, publish metrics source, s =>
    ((), { s with inboxes := s.inboxes.publish ⟨s.time, metrics, source⟩ })

end ServerStep

namespace ServerTask

/-- A task of one step. -/
def single (s : ServerStep α) : ServerTask α := .step s .done

/-- Goes on with the answer of a task. -/
def andThen : ServerTask α → (α → ServerTask β) → ServerTask β
  | .done a, next => next a
  | .step s k, next => .step s fun r => (k r).andThen next

/-- Turns the answer of a task. -/
def map (f : α → β) (t : ServerTask α) : ServerTask β := t.andThen fun a => .done (f a)

/-- The calls of a store task as steps. -/
def ofStore : StoreTask α → ServerTask (Except StoreFault α)
  | .done answer => .done answer
  | .ask call next => .step (.store call) fun r => ofStore (next r)

/-- Runs a task alone, from its first step to its last. -/
def run (store : Store σ) : ServerTask α → ServerState σ → α × ServerState σ
  | .done a, s => (a, s)
  | .step st next, s =>
    let (r, s) := st.take store s
    (next r).run store s

theorem andThen_assoc (t : ServerTask α) (f : α → ServerTask β) (g : β → ServerTask γ) :
    (t.andThen f).andThen g = t.andThen fun a => (f a).andThen g := by
  induction t with
  | done a => rfl
  | step st k ih => exact congrArg (ServerTask.step st) (funext ih)

theorem map_map (f : α → β) (g : β → γ) (t : ServerTask α) :
    (t.map f).map g = t.map fun a => g (f a) := andThen_assoc _ _ _

theorem run_andThen (store : Store σ) (t : ServerTask α) (next : α → ServerTask β)
    (s : ServerState σ) :
    (t.andThen next).run store s = (next (t.run store s).1).run store (t.run store s).2 := by
  induction t generalizing s with
  | done a => rfl
  | step st k ih => simp only [andThen, run]; exact ih _ _

theorem run_ofStore (store : Store σ) (t : StoreTask α) (s : ServerState σ) :
    (ofStore t).run store s =
      ((t.run store s.store).1, { s with store := (t.run store s.store).2 }) := by
  induction t generalizing s with
  | done a => rfl
  | ask c k ih => simp only [ofStore, run, ServerStep.take, StoreTask.run]; rw [ih]

end ServerTask

/-- Saves the store to its file: the right to save, the listing, the file, and the right back. -/
def SnapshotFile.saveTask (file : SnapshotFile) : ServerTask (Except StoreFault Nat) :=
  .step .beginSave fun _ =>
    (ServerTask.ofStore StoreTask.listing).andThen fun
      | .error e => .step .endSave fun _ => .done (.error e)
      | .ok metrics =>
        .step (.replaceFile file metrics) fun r =>
          .step .endSave fun _ => .done (r.map fun _ => metrics.length)

end Metering
