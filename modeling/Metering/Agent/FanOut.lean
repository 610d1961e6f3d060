import Metering.Metric.Basic
import Metering.Retry

/-!
Sending metrics one at a time, by several workers.

A producer offers the metrics to a queue that holds as many as there are workers, and closes the
queue behind the last one. A worker takes the first metric of the queue, makes attempts until one
is accepted or the schedule is used up, and takes the next. A worker that finds the queue closed
and empty ends with its counts, and the counts of all workers are gathered. An attempt may also
crash: then its worker is lost, and its counts with it.

The queue can be offered to as long as the fan-out lasts, whether or not anyone takes from it.

A `FanOutMove` is one thing that can happen, and `step?` has no result for one that cannot happen
now; `Step` lists what a move finds and leaves.

Main statement: every move uses up some of the moves that are left (`movesLeft_step`), so every
course of events comes to an end.
-/
namespace Metering

/-- How a delivery went: metrics accepted, given up, and not fit to be sent at all. -/
structure DispatchReport where
  sent : Nat
  failed : Nat
  dropped : Nat
deriving DecidableEq, Repr

namespace DispatchReport

def none : DispatchReport := ⟨0, 0, 0⟩

/-- Two reports in one. -/
def add (a b : DispatchReport) : DispatchReport :=
  ⟨a.sent + b.sent, a.failed + b.failed, a.dropped + b.dropped⟩

def countSent (r : DispatchReport) : DispatchReport := { r with sent := r.sent + 1 }
def countFailed (r : DispatchReport) : DispatchReport := { r with failed := r.failed + 1 }

end DispatchReport

/-- How an attempt ends. -/
inductive Attempt
  | accepted
  | refused
  | crashed
deriving DecidableEq, Repr

/-- An attempt at a batch, or at one metric. -/
structure Trial where
  isBatch : Bool
  metrics : List Update
  outcome : Attempt
deriving DecidableEq, Repr

/-- A worker with the counts that it keeps. -/
inductive Worker
  | idle (counts : DispatchReport)
  /-- At work on a metric, of which `tried` attempts have been refused. -/
  | sending (counts : DispatchReport) (metric : Update) (tried : Nat)
  | ended (counts : DispatchReport)
  | lost
  /-- Gone, and its counts gathered. -/
  | gathered
deriving DecidableEq, Repr

/-- A delivery by several workers. -/
structure FanOut where
  /-- Metrics that have not been offered yet. -/
  waiting : List Update
  queue : List Update
  capacity : Nat
  isClosed : Bool
  workers : List Worker
  gathered : DispatchReport
deriving DecidableEq, Repr

/-- One thing that can happen. Workers are named by their place. -/
inductive FanOutMove
  | offer
  | close
  | take (worker : Nat)
  | attempt (worker : Nat) (outcome : Attempt)
  | retire (worker : Nat)
  | gather (worker : Nat)
deriving DecidableEq, Repr

namespace Worker

/-- The metric that the worker is at work on. -/
def metric? : Worker → Option Update
  | sending _ m _ => some m
  | _ => none

def isGathered : Worker → Bool
  | gathered => true
  | _ => false

/-- No more moves than this can be made by a worker that takes no other metric. -/
def movesLeft (retries : Nat) : Worker → Nat
  | idle _ => 2
  | sending _ _ tried => retries - tried + 3
  | ended _ | lost => 1
  | gathered => 0

/-- The worker after an attempt, if a metric may be refused `retries` times and tried again. -/
def afterAttempt (retries : Nat) (outcome : Attempt) (counts : DispatchReport) (metric : Update)
    (tried : Nat) : Worker :=
  match outcome with
  | .accepted => idle counts.countSent
  | .refused => if tried < retries then sending counts metric (tried + 1) else idle counts.countFailed
  | .crashed => lost

end Worker

namespace FanOut

/-- A delivery by `width` workers that has not begun. -/
def start (metrics : List Update) (width : Nat) : FanOut :=
  ⟨metrics, [], width, false, List.replicate width (.idle .none), .none⟩

def setWorker (f : FanOut) (index : Nat) (w : Worker) : FanOut :=
  { f with workers := f.workers.set index w }

/-- One move, if it can be made. -/
def step? (retries : Nat) (f : FanOut) : FanOutMove → Option FanOut
  | .offer =>
    match f.waiting with
    | m :: more =>
      if f.queue.length < f.capacity then
        some { f with waiting := more, queue := f.queue ++ [m] }
      else none
    | [] => none
  | .close =>
    if f.waiting = [] ∧ f.isClosed = false then some { f with isClosed := true } else none
  | .take index =>
    match f.workers[index]?, f.queue with
    | some (.idle r), m :: more => some ({ f with queue := more }.setWorker index (.sending r m 0))
    | _, _ => none
  | .attempt index outcome =>
    match f.workers[index]? with
    | some (.sending r m tried) =>
      some (f.setWorker index (Worker.afterAttempt retries outcome r m tried))
    | _ => none
  | .retire index =>
    match f.workers[index]? with
    | some (.idle r) =>
      if f.queue = [] ∧ f.isClosed then some (f.setWorker index (.ended r)) else none
    | _ => none
  | .gather index =>
    if f.isClosed then
      match f.workers[index]? with
      | some (.ended r) =>
        some { f.setWorker index .gathered with gathered := f.gathered.add r }
      | some .lost => some (f.setWorker index .gathered)
      | _ => none
    else none

/-- A course of events. -/
def run? (retries : Nat) (f : FanOut) (moves : List FanOutMove) : Option FanOut :=
  moves.foldlM (step? retries) f

/-- Whether the delivery has returned. -/
def hasReturned (f : FanOut) : Bool := f.isClosed && f.workers.all Worker.isGathered

/-- The metrics that no worker has taken yet, in their order. -/
def pending (f : FanOut) : List Update := f.queue ++ f.waiting

/-- The weights of a list together. -/
def total (weight : α → Nat) (l : List α) : Nat := l.foldr (fun a sum => weight a + sum) 0

/-- No more moves than this can follow. -/
def movesLeft (retries : Nat) (f : FanOut) : Nat :=
  (retries + 3) * f.waiting.length + (retries + 2) * f.queue.length +
    total (Worker.movesLeft retries) f.workers + (!f.isClosed).toNat

/-- What each move finds and what it leaves. -/
inductive Step (retries : Nat) (f : FanOut) : FanOutMove → FanOut → Prop
  | offer {m : Update} {more : List Update} :
      f.waiting = m :: more → f.queue.length < f.capacity →
      Step retries f .offer { f with waiting := more, queue := f.queue ++ [m] }
  | close : f.waiting = [] → f.isClosed = false →
      Step retries f .close { f with isClosed := true }
  | take {index : Nat} {r : DispatchReport} {m : Update} {more : List Update} :
      f.workers[index]? = some (.idle r) → f.queue = m :: more →
      Step retries f (.take index) ({ f with queue := more }.setWorker index (.sending r m 0))
  | attempt {index : Nat} {r : DispatchReport} {m : Update} {tried : Nat} (outcome : Attempt) :
      f.workers[index]? = some (.sending r m tried) →
      Step retries f (.attempt index outcome)
        (f.setWorker index (Worker.afterAttempt retries outcome r m tried))
  | retire {index : Nat} {r : DispatchReport} :
      f.workers[index]? = some (.idle r) → f.queue = [] → f.isClosed = true →
      Step retries f (.retire index) (f.setWorker index (.ended r))
  | gather {index : Nat} {r : DispatchReport} :
      f.isClosed = true → f.workers[index]? = some (.ended r) →
      Step retries f (.gather index)
        { f.setWorker index .gathered with gathered := f.gathered.add r }
  | gatherLost {index : Nat} :
      f.isClosed = true → f.workers[index]? = some .lost →
      Step retries f (.gather index) (f.setWorker index .gathered)

theorem step_of_step? {retries : Nat} {f g : FanOut} {m : FanOutMove}
    (h : f.step? retries m = some g) : Step retries f m g := by
  cases m with
  | offer =>
    simp only [step?] at h
    split at h
    next hwaiting =>
      split at h
      next hroom =>
        obtain rfl := Option.some.inj h
        exact .offer hwaiting hroom
      next => cases h
    next => cases h
  | close =>
    simp only [step?] at h
    split at h
    next hopen =>
      obtain rfl := Option.some.inj h
      exact .close hopen.1 hopen.2
    next => cases h
  | take index =>
    simp only [step?] at h
    split at h
    next hworker hqueue =>
      obtain rfl := Option.some.inj h
      exact .take hworker hqueue
    next => cases h
  | attempt index outcome =>
    simp only [step?] at h
    split at h
    next hworker =>
      obtain rfl := Option.some.inj h
      exact .attempt outcome hworker
    next => cases h
  | retire index =>
    simp only [step?] at h
    split at h
    next hworker =>
      split at h
      next hdone =>
        obtain rfl := Option.some.inj h
        exact .retire hworker hdone.1 hdone.2
      next => cases h
    next => cases h
  | gather index =>
    simp only [step?] at h
    split at h
    next hclosed =>
      split at h
      next hworker =>
        obtain rfl := Option.some.inj h
        exact .gather hclosed hworker
      next hworker =>
        obtain rfl := Option.some.inj h
        exact .gatherLost hclosed hworker
      next => cases h
    next => cases h

theorem step?_of_step {retries : Nat} {f g : FanOut} {m : FanOutMove} (h : Step retries f m g) :
    f.step? retries m = some g := by
  cases h with
  | offer hwaiting hroom => simp only [step?, hwaiting, if_pos hroom]
  | close hwaiting hopen => simp only [step?, hwaiting, hopen, and_self, if_true]
  | take hworker hqueue => simp only [step?, hworker, hqueue]
  | attempt outcome hworker => simp only [step?, hworker]
  | retire hworker hqueue hclosed => simp only [step?, hworker, hqueue, hclosed, and_self, if_true]
  | gather hclosed hworker => simp only [step?, hclosed, hworker, if_true]
  | gatherLost hclosed hworker => simp only [step?, hclosed, hworker, if_true]

/-- Steps that all lead downwards are no more than the height that they lead down. -/
theorem length_add_le_of_descent {σ μ : Type} {step : σ → μ → Option σ} {height : σ → Nat}
    (hstep : ∀ {a m b}, step a m = some b → height b < height a) {ms : List μ} {a b : σ}
    (h : ms.foldlM step a = some b) : ms.length + height b ≤ height a := by
  induction ms generalizing a with
  | nil =>
    obtain rfl := Option.some.inj h
    exact Nat.le_of_eq (Nat.zero_add _)
  | cons m ms ih =>
    obtain ⟨next, hfirst, hrest⟩ := Option.bind_eq_some_iff.mp h
    calc (m :: ms).length + height b = (ms.length + height b) + 1 := Nat.add_right_comm ..
      _ ≤ height next + 1 := Nat.succ_le_succ (ih hrest)
      _ ≤ height a := hstep hfirst

/-- The weights of a list in which one place has changed. -/
theorem total_set (weight : α → Nat) {l : List α} {index : Nat} {a : α}
    (h : l[index]? = some a) (b : α) :
    total weight (l.set index b) + weight a = total weight l + weight b := by
  induction l generalizing index with
  | nil => cases h
  | cons first rest ih =>
    cases index with
    | zero =>
      obtain rfl := Option.some.inj h
      simp only [List.set_cons_zero, total, List.foldr_cons]
      omega
    | succ index =>
      have hrest := ih h
      simp only [List.set_cons_succ, total, List.foldr_cons] at hrest ⊢
      omega

theorem movesLeft_afterAttempt (retries : Nat) (outcome : Attempt) (r : DispatchReport) (m : Update)
    (tried : Nat) :
    (Worker.afterAttempt retries outcome r m tried).movesLeft retries < retries - tried + 3 := by
  cases outcome with
  | refused =>
    simp only [Worker.afterAttempt]
    split <;> simp only [Worker.movesLeft] <;> omega
  | _ => simp only [Worker.afterAttempt, Worker.movesLeft]; omega

theorem movesLeft_step {retries : Nat} {f g : FanOut} {m : FanOutMove}
    (h : f.step? retries m = some g) : g.movesLeft retries < f.movesLeft retries := by
  cases step_of_step? h with
  | offer hwaiting _ =>
    simp only [movesLeft, hwaiting, List.length_append, List.length_cons, List.length_nil,
      Nat.mul_add]
    omega
  | close _ hopen =>
    simp only [movesLeft, hopen, Bool.not_true, Bool.not_false, Bool.toNat_false, Bool.toNat_true]
    omega
  | @take index r m more hworker hqueue =>
    have hsum := total_set (Worker.movesLeft retries) hworker (.sending r m 0)
    simp only [movesLeft, setWorker, hqueue, List.length_cons, Nat.mul_add, Worker.movesLeft]
      at hsum ⊢
    omega
  | @attempt index r m tried outcome hworker =>
    have hsum := total_set (Worker.movesLeft retries) hworker
      (Worker.afterAttempt retries outcome r m tried)
    have hless := movesLeft_afterAttempt retries outcome r m tried
    have hsending : (Worker.sending r m tried).movesLeft retries = retries - tried + 3 := rfl
    simp only [movesLeft, setWorker]
    omega
  | @retire index r hworker _ _ =>
    have hsum := total_set (Worker.movesLeft retries) hworker (.ended r)
    simp only [movesLeft, setWorker, Worker.movesLeft] at hsum ⊢
    omega
  | gather hclosed hworker =>
    have hsum := total_set (Worker.movesLeft retries) hworker .gathered
    simp only [movesLeft, setWorker, Worker.movesLeft] at hsum ⊢
    omega
  | gatherLost hclosed hworker =>
    have hsum := total_set (Worker.movesLeft retries) hworker .gathered
    simp only [movesLeft, setWorker, Worker.movesLeft] at hsum ⊢
    omega

/-- A course of events is no longer than the moves that were left. -/
theorem movesLeft_run {retries : Nat} {f g : FanOut} {moves : List FanOutMove}
    (h : f.run? retries moves = some g) :
    moves.length + g.movesLeft retries ≤ f.movesLeft retries :=
  length_add_le_of_descent (fun hstep => movesLeft_step hstep) h

end FanOut
end Metering
