import Metering.Store.Ledger
import Metering.Retry

/-!
Stores and what is asked of them.

A `StoreCall` is one indivisible request to a store, with the type of its answer. A `StoreTask`
is a dialogue of calls: applying an update, reading a value, or listing everything, which takes
the gauges and the counters in two calls. A `Store` answers calls by changing a state. Several
tasks may be under way at once; then their calls interleave, one call at a time (`TaskPool`).

Three stores are given: the ledger itself, a store whose calls fail by a script before they reach
the ledger, and a store that repeats calls with transient faults on a schedule.
-/
namespace Metering

/-- One indivisible request to a store. -/
inductive StoreCall : Type → Type 1
  | setGauge (id : String) (reading : Binary64) : StoreCall Unit
  | addCounter (id : String) (delta : Int64) : StoreCall Unit
  | batch (updates : List Update) : StoreCall Unit
  | gauge (id : String) : StoreCall (Option Binary64)
  | counter (id : String) : StoreCall (Option Int64)
  | gauges : StoreCall (Table Binary64)
  | counters : StoreCall (Table Int64)
  | ping : StoreCall Unit

/-- A store: how a call is answered and what it leaves behind. -/
structure Store (σ : Type) where
  call : {α : Type} → StoreCall α → σ → Except StoreFault α × σ

/-- A dialogue of calls that ends in an answer. -/
inductive StoreTask (α : Type) : Type 1
  | done (answer : Except StoreFault α)
  | ask {β : Type} (call : StoreCall β) (next : Except StoreFault β → StoreTask α)

namespace StoreTask

/-- A task of one call. -/
def single (c : StoreCall α) : StoreTask α := .ask c .done

/-- Goes on with the answer of a task; a fault ends it. -/
def andThen : StoreTask α → (α → StoreTask β) → StoreTask β
  | .done (.ok a), next => next a
  | .done (.error e), _ => .done (.error e)
  | .ask c k, next => .ask c fun r => (k r).andThen next

/-- Turns the answer of a task. -/
def map (f : α → β) (t : StoreTask α) : StoreTask β := t.andThen fun a => .done (.ok (f a))

/-- Runs a task on a store from its first call to its last. -/
def run (store : Store σ) : StoreTask α → σ → Except StoreFault α × σ
  | .done answer, s => (answer, s)
  | .ask c next, s =>
    let (r, s) := store.call c s
    (next r).run store s

/-- One update as a call of its kind. -/
def apply (u : Update) : StoreTask Unit :=
  match u.value with
  | .gauge x => single (.setGauge u.id x)
  | .counter d => single (.addCounter u.id d)

/-- The value of a metric. -/
def read (kind : Kind) (id : String) : StoreTask (Option Value) :=
  match kind with
  | .gauge => (single (.gauge id)).map (Option.map .gauge)
  | .counter => (single (.counter id)).map (Option.map .counter)

/-- Every metric: the gauges, and in a second call the counters. -/
def listing : StoreTask (List Metric) :=
  (single .gauges).andThen fun gauges =>
    (single .counters).map fun counters => Ledger.records gauges.entries counters.entries

end StoreTask

/-! ## Stores -/

namespace Ledger

/-- The ledger's own answer to a call. -/
def answer : {α : Type} → StoreCall α → Ledger → Except StoreFault α × Ledger
  | _, .setGauge id x, l => (.ok (), l.setGauge id x)
  | _, .addCounter id d, l =>
    match l.addCounter id d with
    | .ok l => (.ok (), l)
    | .error e => (.error e, l)
  | _, .batch us, l =>
    match l.applyAll us with
    | .ok l => (.ok (), l)
    | .error e => (.error e, l)
  | _, .gauge id, l => (.ok (l.gauges.get? id), l)
  | _, .counter id, l => (.ok (l.counters.get? id), l)
  | _, .gauges, l => (.ok l.gauges, l)
  | _, .counters, l => (.ok l.counters, l)
  | _, .ping, l => (.ok (), l)

/-- The ledger as a store. -/
def store : Store Ledger := ⟨answer⟩

end Ledger

/-- The outcomes of the calls to come: a fault that keeps a call from the store, or none. Calls
after the last outcome get through. -/
abbrev Outages := List (Option StoreFault)

/-- A store whose calls fail as foretold, before they reach the store behind it. -/
def Store.withOutages (store : Store σ) : Store (Outages × σ) where
  call c s :=
    match s.1 with
    | [] =>
      let (r, inner) := store.call c s.2
      (r, [], inner)
    | none :: rest =>
      let (r, inner) := store.call c s.2
      (r, rest, inner)
    | some fault :: rest => (.error fault, rest, s.2)

/-- Whether a call is repeated at all: a ping asks how things are now. -/
def StoreCall.isRepeated : {α : Type} → StoreCall α → Bool
  | _, .ping => false
  | _, _ => true

/-- What repeating has cost so far: calls made to the store behind, and time waited. -/
structure RetryCost where
  calls : Nat
  waited : Nat
deriving DecidableEq, Repr

namespace RetryCost

def none : RetryCost := ⟨0, 0⟩

/-- The cost with that of one more run. -/
def add (c : RetryCost) (calls waited : Nat) : RetryCost := ⟨c.calls + calls, c.waited + waited⟩

end RetryCost

/-- A store that repeats a call on a schedule while its fault is transient. -/
def Store.retrying (schedule : RetrySchedule) (store : Store σ) : Store (RetryCost × σ) where
  call c s :=
    let waits := if c.isRepeated then schedule.waits else []
    let run := retry StoreFault.isTransient untimed (store.call c) waits s.2
    (run.answer, s.1.add run.calls run.elapsed, run.state)

/-! ## Many tasks at once -/

/-- Tasks under way on one store. -/
structure TaskPool (α σ : Type) where
  state : σ
  tasks : List (StoreTask α)

namespace TaskPool

/-- The next call of the task at `index`, or nothing if it has ended. -/
def step (store : Store σ) (pool : TaskPool α σ) (index : Nat) : TaskPool α σ :=
  match pool.tasks[index]? with
  | some (.ask c next) =>
    let (r, s) := store.call c pool.state
    ⟨s, pool.tasks.set index (next r)⟩
  | _ => pool

/-- The calls of a whole schedule of turns. -/
def run (store : Store σ) (pool : TaskPool α σ) (turns : List Nat) : TaskPool α σ :=
  turns.foldl (step store) pool

end TaskPool
end Metering
