import Metering.Ingest.Task

/-!
Many tasks under way on one server.

Tasks take their steps in turns. Only one of them has the right to save at a time. Replacing the
snapshot file is work for a thread of its own: a task hands the contents over and waits until the
write has landed. A task can be cancelled between any two steps. It then gives the right to save
back, but a write that it has handed over lands all the same.

A write is made aside and then moved into place. Until then it can fail in its own time, whatever
the disk looks like; the file stays as it is, and the task goes on with the fault.

A `PoolMove` is one thing that can happen; one that cannot happen now changes nothing, so that
every list of moves is a possible course of events.

Main statement: a move that is no turn and no landing of a write changes neither the store nor the
file (`state_step`).
-/
namespace Metering

/-- A task in a pool. -/
inductive PoolTask (α : Type) : Type 1
  | running (task : ServerTask α)
  | cancelled

/-- A write of the snapshot file that has been handed over and has not landed yet. -/
structure FileWrite where
  owner : Nat
  file : SnapshotFile
  metrics : List Metric
deriving DecidableEq

/-- Tasks under way, who has the right to save, and the writes that have not landed. -/
structure ServerPool (α σ : Type) where
  state : ServerState σ
  tasks : List (PoolTask α)
  holder : Option Nat
  writes : List FileWrite

/-- What can happen in a pool. Tasks and writes are named by their place. -/
inductive PoolMove (α : Type) : Type 1
  | start (task : ServerTask α)
  | turn (task : Nat)
  | land (write : Nat)
  | fail (write : Nat) (fault : StoreFault)
  | cancel (task : Nat)

namespace PoolTask

/-- The answer of a task that has ended. -/
def answer? : PoolTask α → Option α
  | running (.done a) => some a
  | _ => none

/-- Whether a task takes no more steps. -/
def hasEnded : PoolTask α → Bool
  | running (.step _ _) => false
  | _ => true

end PoolTask

namespace ServerPool

/-- A pool without tasks. -/
def ofState (s : ServerState σ) : ServerPool α σ := ⟨s, [], none, []⟩

/-- Puts a task in the place of another. -/
def setTask (pool : ServerPool α σ) (index : Nat) (task : PoolTask α) : ServerPool α σ :=
  { pool with tasks := pool.tasks.set index task }

/-- Takes the next step of the task at `index`, if it can be taken. -/
def advance (store : Store σ) (pool : ServerPool α σ) (index : Nat) :
    {β : Type} → ServerStep β → (β → ServerTask α) → ServerPool α σ
  | _, .beginSave, next =>
    if pool.holder.isNone then
      { pool.setTask index (.running (next ())) with holder := some index }
    else pool
  | _, .endSave, next => { pool.setTask index (.running (next ())) with holder := none }
  | _, .replaceFile file metrics, _ =>
    if pool.writes.any fun w => w.owner == index then pool
    else { pool with writes := pool.writes ++ [⟨index, file, metrics⟩] }
  | _, step, next =>
    let (r, s) := step.take store pool.state
    { pool.setTask index (.running (next r)) with state := s }

/-- The turn of a task. -/
def turn (store : Store σ) (pool : ServerPool α σ) (index : Nat) : ServerPool α σ :=
  match pool.tasks[index]? with
  | some (.running (.step step next)) => pool.advance store index step next
  | _ => pool

/-- A task that waits for a write goes on with its outcome. -/
def resume (pool : ServerPool α σ) (index : Nat) (outcome : Except StoreFault Unit) :
    ServerPool α σ :=
  match pool.tasks[index]? with
  | some (.running (.step (.replaceFile _ _) next)) =>
    pool.setTask index (.running (next outcome))
  | _ => pool

/-- A write lands. -/
def land (store : Store σ) (pool : ServerPool α σ) (index : Nat) : ServerPool α σ :=
  match pool.writes[index]? with
  | some w =>
    let (outcome, s) := (ServerStep.replaceFile w.file w.metrics).take store pool.state
    { pool with state := s, writes := pool.writes.eraseIdx index }.resume w.owner outcome
  | none => pool

/-- A write fails before it is moved into place. -/
def fail (pool : ServerPool α σ) (index : Nat) (fault : StoreFault) : ServerPool α σ :=
  match pool.writes[index]? with
  | some w => { pool with writes := pool.writes.eraseIdx index }.resume w.owner (.error fault)
  | none => pool

/-- A task is cancelled. -/
def cancel (pool : ServerPool α σ) (index : Nat) : ServerPool α σ :=
  match pool.tasks[index]? with
  | some task =>
    if task.hasEnded then pool
    else
      { pool.setTask index .cancelled with
        holder := if pool.holder = some index then none else pool.holder }
  | none => pool

/-- One move. -/
def step (store : Store σ) (pool : ServerPool α σ) : PoolMove α → ServerPool α σ
  | .start task => { pool with tasks := pool.tasks ++ [.running task] }
  | .turn index => pool.turn store index
  | .land index => pool.land store index
  | .fail index fault => pool.fail index fault
  | .cancel index => pool.cancel index

/-- A course of events. -/
def run (store : Store σ) (pool : ServerPool α σ) (moves : List (PoolMove α)) : ServerPool α σ :=
  moves.foldl (step store) pool

/-- The answers that have been given so far, by the place of their task. -/
def answers (pool : ServerPool α σ) : List (Option α) := pool.tasks.map PoolTask.answer?

theorem state_resume (pool : ServerPool α σ) (index : Nat) (outcome : Except StoreFault Unit) :
    (pool.resume index outcome).state = pool.state := by
  unfold resume
  split <;> rfl

theorem state_step (store : Store σ) (pool : ServerPool α σ) {m : PoolMove α}
    (hturn : ∀ i, m ≠ .turn i) (hland : ∀ i, m ≠ .land i) :
    (pool.step store m).state = pool.state := by
  cases m with
  | start t => rfl
  | turn i => exact absurd rfl (hturn i)
  | land i => exact absurd rfl (hland i)
  | fail i fault =>
    simp only [step, fail]
    split
    · exact state_resume _ _ _
    · rfl
  | cancel i =>
    simp only [step, cancel]
    split
    · split <;> rfl
    · rfl

end ServerPool
end Metering
