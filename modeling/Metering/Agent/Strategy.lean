import Metering.Agent.Collector
import Metering.Agent.FanOut

/-!
The two ways of delivering a snapshot.

Readings that are not finite cannot be sent and are dropped. With one worker at most, everything
else is sent as one batch, and one metric at a time if every attempt at the batch is refused. With
more workers every metric is sent on its own from the start.

A `DispatchMove` is one thing that can happen, and `step?` has no result for one that cannot happen
now. Main statement: every move uses up some of the moves that are left (`movesLeft_step`), so
every course of events comes to an end.
-/
namespace Metering

/-- How snapshots are delivered. -/
structure DispatchPlan where
  width : Nat
  schedule : RetrySchedule
deriving DecidableEq, Repr

namespace DispatchPlan

/-- One batch at a time on the standard schedule. -/
def standard : DispatchPlan := ⟨1, .standard⟩

/-- How often something that was refused is tried again. -/
def retries (p : DispatchPlan) : Nat := p.schedule.waits.length

end DispatchPlan

namespace Snapshot

/-- The entries that can be sent. -/
def encodable (s : Snapshot) : List Update := s.metrics.filter fun u => u.value.isEncodable

/-- The entries that are dropped. -/
def unencodable (s : Snapshot) : List Update := s.metrics.filter fun u => !u.value.isEncodable

end Snapshot

/-- How a dispatch ends: with a report, with the crash of an attempt at a batch, or not at all. -/
inductive DispatchEnd
  | returned (report : DispatchReport)
  | crashed
  | stuck
deriving DecidableEq, Repr

/-- How far a dispatch is. -/
inductive DispatchState
  /-- At work on a batch, at which `tried` attempts have been refused. -/
  | batching (metrics : List Update) (tried : Nat)
  | fanning (f : FanOut)
  | done (report : DispatchReport)
  | crashed
deriving DecidableEq, Repr

/-- One thing that can happen: an attempt at the batch ends, or the fan-out makes a move. -/
inductive DispatchMove
  | batch (outcome : Attempt)
  | one (move : FanOutMove)
deriving DecidableEq, Repr

namespace DispatchState

/-- A dispatch that has not begun. -/
def start (plan : DispatchPlan) (s : Snapshot) : DispatchState :=
  if s.encodable = [] then done .none
  else if plan.width ≤ 1 then batching s.encodable 0
  else fanning (.start s.encodable plan.width)

/-- One move, if it can be made. -/
def step? (retries : Nat) : DispatchState → DispatchMove → Option DispatchState
  | batching metrics tried, .batch outcome =>
    match outcome with
    | .accepted => some (done ⟨metrics.length, 0, 0⟩)
    | .refused =>
      some (if tried < retries then batching metrics (tried + 1) else fanning (.start metrics 1))
    | .crashed => some crashed
  | fanning f, .one move => (f.step? retries move).map fanning
  | _, _ => none

/-- A course of events. -/
def run? (retries : Nat) (d : DispatchState) (moves : List DispatchMove) : Option DispatchState :=
  moves.foldlM (step? retries) d

/-- What has been counted, once everything has been sent or given up. -/
def report? : DispatchState → Option DispatchReport
  | done report => some report
  | fanning f => if f.hasReturned then some f.gathered else none
  | batching _ _ | crashed => none

/-- How a dispatch ends that stays as it is, with the metrics that were dropped. -/
def ending (dropped : Nat) (d : DispatchState) : DispatchEnd :=
  match d with
  | crashed => .crashed
  | d =>
    match d.report? with
    | some report => .returned { report with dropped := dropped }
    | none => .stuck

/-- No more moves than this can follow. -/
def movesLeft (retries : Nat) : DispatchState → Nat
  | batching metrics tried => retries - tried + 2 + (FanOut.start metrics 1).movesLeft retries
  | fanning f => f.movesLeft retries
  | done _ | crashed => 0

theorem movesLeft_step {retries : Nat} {d e : DispatchState} {m : DispatchMove}
    (h : d.step? retries m = some e) : e.movesLeft retries < d.movesLeft retries := by
  cases d with
  | batching metrics tried =>
    cases m with
    | one move => cases h
    | batch outcome =>
      cases outcome with
      | refused =>
        obtain rfl := Option.some.inj h
        split <;> simp only [movesLeft] <;> omega
      | _ =>
        obtain rfl := Option.some.inj h
        simp only [movesLeft]
        omega
  | fanning f =>
    cases m with
    | batch outcome => cases h
    | one move =>
      obtain ⟨g, hg, rfl⟩ := Option.map_eq_some_iff.mp h
      exact FanOut.movesLeft_step hg
  | done report => cases h
  | crashed => cases h

/-- A course of events is no longer than the moves that were left. -/
theorem movesLeft_run {retries : Nat} {d e : DispatchState} {moves : List DispatchMove}
    (h : d.run? retries moves = some e) :
    moves.length + e.movesLeft retries ≤ d.movesLeft retries :=
  FanOut.length_add_le_of_descent (fun hstep => movesLeft_step hstep) h

end DispatchState
end Metering
