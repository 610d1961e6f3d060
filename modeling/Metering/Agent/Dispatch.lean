import Metering.Agent.Strategy

/-!
Delivering a snapshot in time.

An `Outbox` is a sender at a point of time, and everything here runs on its clock: attempts take
the time that the sender says, and what takes no time happens at once, in the order in which it
came up. `Crew` carries a fan-out through time by moves that the fan-out admits.

An attempt can crash. A batch that crashes takes the whole dispatch with it; a single metric takes
its worker, and when the last worker is gone the dispatch may never end.
-/
namespace Metering

/-- What attempts come to, and the milliseconds they take. -/
structure Sender (σ : Type) where
  batch : List Update → σ → (Attempt × Nat) × σ
  one : Update → σ → (Attempt × Nat) × σ

/-- An attempt that was made, with the time at which it began. -/
structure SendCall extends Trial where
  start : Nat
deriving DecidableEq, Repr

/-- A sender at a point of time, with the attempts so far. -/
structure Outbox (σ : Type) where
  now : Nat
  sender : σ
  calls : List SendCall

/-- Why a batch was not accepted. -/
inductive BatchFault
  | refused
  | crashed
deriving DecidableEq, Repr

namespace BatchFault

/-- Only a batch that was refused is tried again. -/
def isRetried (e : BatchFault) : Bool := e == refused

end BatchFault

/-- What an attempt at a batch means for the batch. -/
def Attempt.answer : Attempt → Except BatchFault Unit
  | accepted => .ok ()
  | refused => .error .refused
  | crashed => .error .crashed

namespace Outbox

/-- Lets time pass. -/
def wait (milliseconds : Nat) (o : Outbox σ) : Outbox σ := { o with now := o.now + milliseconds }

/-- Notes an attempt. -/
def note (o : Outbox σ) (trial : Trial) (s : σ) : Outbox σ :=
  ⟨o.now, s, o.calls ++ [⟨trial, o.now⟩]⟩

/-- One attempt at a batch. -/
def tryBatch (sender : Sender σ) (metrics : List Update) (o : Outbox σ) :
    Except BatchFault Unit × Outbox σ :=
  let ((outcome, took), s) := sender.batch metrics o.sender
  (outcome.answer, (o.note ⟨true, metrics, outcome⟩ s).wait took)

end Outbox

/-! ## A fan-out in time -/

/-- What a worker does next. -/
inductive WorkerEvent
  | begin
  | finish (outcome : Attempt)
deriving DecidableEq, Repr

/-- An event that is due. -/
structure Due where
  time : Nat
  worker : Nat
  event : WorkerEvent
deriving DecidableEq, Repr

/-- A fan-out in time. Events are sorted by time, and equal times by when they came up. -/
structure Crew (σ : Type) where
  fan : FanOut
  due : List Due
  outbox : Outbox σ

namespace Crew

/-- Puts an event behind those that are not later. -/
def insertDue (d : Due) : List Due → List Due
  | [] => [d]
  | e :: es => if e.time ≤ d.time then e :: insertDue d es else d :: e :: es

/-- An event some time from now. -/
def plan (c : Crew σ) (delay worker : Nat) (event : WorkerEvent) : Crew σ :=
  { c with due := insertDue ⟨c.outbox.now + delay, worker, event⟩ c.due }

/-- The moves that take no time, in the order in which they are tried. -/
def promptMoves (f : FanOut) : List FanOutMove :=
  let workers := List.range f.workers.length
  .offer :: workers.map .take ++ .close :: workers.map .retire ++ workers.map .gather

/-- The first prompt move that can be made, and the fan-out after it. -/
def promptMove? (retries : Nat) (f : FanOut) : Option (FanOutMove × FanOut) :=
  (promptMoves f).findSome? fun m => (f.step? retries m).map (m, ·)

/-- Makes prompt moves until none can be made, but at most `limit` of them. -/
def settle (retries : Nat) : Nat → Crew σ → Crew σ
  | 0, c => c
  | limit + 1, c =>
    match promptMove? retries c.fan with
    | none => c
    | some (.take worker, f) => settle retries limit ({ c with fan := f }.plan 0 worker .begin)
    | some (_, f) => settle retries limit { c with fan := f }

/-- Makes every prompt move. -/
def settleAll (retries : Nat) (c : Crew σ) : Crew σ := c.settle retries (c.fan.movesLeft retries)

/-- A worker begins an attempt. -/
def beginAttempt (sender : Sender σ) (c : Crew σ) (worker : Nat) : Crew σ :=
  match c.fan.workers[worker]? with
  | some (.sending _ metric _) =>
    let ((outcome, took), s) := sender.one metric c.outbox.sender
    { c with outbox := c.outbox.note ⟨false, [metric], outcome⟩ s }.plan took worker
      (.finish outcome)
  | _ => c

/-- A worker ends an attempt, and plans the next one if it was refused and may be repeated. -/
def finishAttempt (waits : List Nat) (c : Crew σ) (worker : Nat) (outcome : Attempt) : Crew σ :=
  match c.fan.step? waits.length (.attempt worker outcome) with
  | none => c
  | some f =>
    let c := { c with fan := f }
    match f.workers[worker]? with
    | some (.sending _ _ tried) => c.plan (waits.getD (tried - 1) 0) worker .begin
    | _ => c.settleAll waits.length

/-- Handles an event. -/
def handle (sender : Sender σ) (waits : List Nat) (c : Crew σ) (d : Due) : Crew σ :=
  let c : Crew σ := { c with outbox := { c.outbox with now := d.time } }
  match d.event with
  | .begin => c.beginAttempt sender d.worker
  | .finish outcome => c.finishAttempt waits d.worker outcome

/-- Handles up to `limit` events. -/
def run (sender : Sender σ) (waits : List Nat) : Nat → Crew σ → Crew σ
  | 0, c => c
  | limit + 1, c =>
    match c.due with
    | [] => c
    | d :: more => run sender waits limit ({ c with due := more }.handle sender waits d)

end Crew

namespace Outbox

/-- Carries a fan-out through time, until nothing can happen any more. There are at most two events
for every move. -/
def fanOut (sender : Sender σ) (waits : List Nat) (f : FanOut) (o : Outbox σ) :
    FanOut × Outbox σ :=
  let crew : Crew σ := ⟨f, [], o⟩
  let crew := (crew.settleAll waits.length).run sender waits (2 * f.movesLeft waits.length)
  (crew.fan, crew.outbox)

/-- Sends metrics as one batch; if every attempt is refused, they are left to a single worker. -/
def sendBatch (sender : Sender σ) (waits : List Nat) (metrics : List Update) (o : Outbox σ) :
    DispatchState × Outbox σ :=
  let run := retry BatchFault.isRetried wait (tryBatch sender metrics) waits o
  match run.answer with
  | .ok () => (.done ⟨metrics.length, 0, 0⟩, run.state)
  | .error .refused => (.fanning (.start metrics 1), run.state)
  | .error .crashed => (.crashed, run.state)

/-- Sends the batch of a dispatch that begins with one. -/
def batchFirst (sender : Sender σ) (waits : List Nat) (d : DispatchState) (o : Outbox σ) :
    DispatchState × Outbox σ :=
  match d with
  | .batching metrics _ => o.sendBatch sender waits metrics
  | d => (d, o)

/-- Sends the metrics of a fan-out, if there is one. -/
def fanOutLast (sender : Sender σ) (waits : List Nat) (d : DispatchState) (o : Outbox σ) :
    DispatchState × Outbox σ :=
  match d with
  | .fanning f =>
    let (f, o) := o.fanOut sender waits f
    (.fanning f, o)
  | d => (d, o)

/-- Delivers a snapshot. -/
def dispatch (sender : Sender σ) (plan : DispatchPlan) (snapshot : Snapshot) (o : Outbox σ) :
    DispatchEnd × Outbox σ :=
  let waits := plan.schedule.waits
  let (d, o) := o.batchFirst sender waits (.start plan snapshot)
  let (d, o) := o.fanOutLast sender waits d
  (d.ending snapshot.unencodable.length, o)

end Outbox
end Metering
