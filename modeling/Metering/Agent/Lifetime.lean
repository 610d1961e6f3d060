import Metering.Agent.Dispatch
import Metering.Agent.Sampler

/-!
An agent from its start to its last delivery.

Every sampler works on its own, and so does the reporter, which hands snapshots over for delivery
one at a time. When the agent is told to stop, each of them ends as soon as it is at rest. When
all have ended the agent hands over one last snapshot. A sampler that breaks down has ended, and
so has the reporter if a delivery breaks down.

An `AgentMove` is one thing that can happen, and `step?` has no result for one that cannot happen
now. `AgentClock` carries an agent through time by such moves: samplers and reporter have ticks at
a fixed distance, and a tick that is handled late moves those after it.

Main statement: handing a snapshot over moves the count of polls from the collector to the
snapshots and loses none (`counted_report`).
-/
namespace Metering

/-- What a sampler is doing. -/
inductive SamplerState
  | resting (s : Sampler)
  | sampling (s : Sampler)
  | ended
deriving DecidableEq

/-- What the reporter is doing. -/
inductive ReporterState
  | resting
  | delivering
  | ended
deriving DecidableEq, Repr

/-- An agent at work. -/
structure AgentState where
  collector : Collector
  samplers : List SamplerState
  reporter : ReporterState
  isStopping : Bool
  /-- The snapshots handed over, oldest first. -/
  reports : List Snapshot
  hasFlushed : Bool
deriving DecidableEq

/-- One thing that can happen. Samplers are named by their place. -/
inductive AgentMove
  | beginPass (sampler : Nat)
  | endPass (sampler : Nat)
  | quitSampler (sampler : Nat)
  | beginReport
  | endReport
  /-- The delivery that the reporter is busy with breaks down. -/
  | breakReport
  | quitReporter
  | stop
  | flush
deriving DecidableEq, Repr

namespace AgentState

/-- An agent that has not begun. -/
def start (samplers : List Sampler) : AgentState :=
  ⟨.empty, samplers.map .resting, .resting, false, [], false⟩

/-- Hands a snapshot over. -/
def report (a : AgentState) : AgentState :=
  { a with collector := a.collector.snapshot.2, reports := a.reports ++ [a.collector.snapshot.1] }

def setSampler (a : AgentState) (index : Nat) (s : SamplerState) : AgentState :=
  { a with samplers := a.samplers.set index s }

/-- Whether samplers and reporter have ended. -/
def isQuiet (a : AgentState) : Bool := a.samplers.all (· = .ended) && a.reporter = .ended

/-- Ends a pass: its readings are put in at once, or the sampler has broken down. -/
def endPass (a : AgentState) (index : Nat) (s : Sampler) : AgentState :=
  match a.collector.poll s with
  | (some c, s) => { a with collector := c }.setSampler index (.resting s)
  | (none, _) => a.setSampler index .ended

/-- One move, if it can be made. -/
def step? (a : AgentState) : AgentMove → Option AgentState
  | .beginPass i =>
    match a.samplers[i]? with
    | some (.resting s) => some (a.setSampler i (.sampling s))
    | _ => none
  | .endPass i =>
    match a.samplers[i]? with
    | some (.sampling s) => some (a.endPass i s)
    | _ => none
  | .quitSampler i =>
    match a.samplers[i]? with
    | some (.resting _) => if a.isStopping then some (a.setSampler i .ended) else none
    | _ => none
  | .beginReport =>
    if a.reporter = .resting then some { a.report with reporter := .delivering } else none
  | .endReport => if a.reporter = .delivering then some { a with reporter := .resting } else none
  | .breakReport => if a.reporter = .delivering then some { a with reporter := .ended } else none
  | .quitReporter =>
    if a.reporter = .resting ∧ a.isStopping then some { a with reporter := .ended } else none
  | .stop => some { a with isStopping := true }
  | .flush =>
    if a.isQuiet ∧ a.hasFlushed = false then some { a.report with hasFlushed := true } else none

/-- A course of events. -/
def run? (a : AgentState) (moves : List AgentMove) : Option AgentState := moves.foldlM step? a

/-- The moves that can be made, one after another; others are passed over. -/
def steps (a : AgentState) (moves : List AgentMove) : AgentState :=
  moves.foldl (fun a m => (a.step? m).getD a) a

end AgentState

/-! ## What a move finds and leaves -/

namespace AgentState

/-- What each move finds and what it leaves. -/
inductive Step (a : AgentState) : AgentMove → AgentState → Prop
  | beginPass {i : Nat} {s : Sampler} : a.samplers[i]? = some (.resting s) →
      Step a (.beginPass i) (a.setSampler i (.sampling s))
  | endPass {i : Nat} {s s' : Sampler} {readings : Readings} :
      a.samplers[i]? = some (.sampling s) → s.next = (some readings, s') →
      Step a (.endPass i)
        ({ a with collector := a.collector.record readings s'.countsPolls }.setSampler i
          (.resting s'))
  | breakPass {i : Nat} {s s' : Sampler} : a.samplers[i]? = some (.sampling s) →
      s.next = (none, s') → Step a (.endPass i) (a.setSampler i .ended)
  | quitSampler {i : Nat} {s : Sampler} : a.samplers[i]? = some (.resting s) →
      a.isStopping = true → Step a (.quitSampler i) (a.setSampler i .ended)
  | beginReport : a.reporter = .resting → Step a .beginReport { a.report with reporter := .delivering }
  | endReport : a.reporter = .delivering → Step a .endReport { a with reporter := .resting }
  | breakReport : a.reporter = .delivering → Step a .breakReport { a with reporter := .ended }
  | quitReporter : a.reporter = .resting → a.isStopping = true →
      Step a .quitReporter { a with reporter := .ended }
  | stop : Step a .stop { a with isStopping := true }
  | flush : a.isQuiet = true → a.hasFlushed = false →
      Step a .flush { a.report with hasFlushed := true }

theorem step_of_step? {a b : AgentState} {m : AgentMove} (h : a.step? m = some b) : Step a m b := by
  cases m with
  | beginPass i =>
    simp only [step?] at h
    split at h
    next hs =>
      obtain rfl := Option.some.inj h
      exact .beginPass hs
    next => cases h
  | endPass i =>
    simp only [step?] at h
    split at h
    next s hs =>
      obtain rfl := Option.some.inj h
      cases hnext : s.next with
      | mk pass s' =>
        cases pass with
        | none =>
          have hbreak : a.endPass i s = a.setSampler i .ended := by
            simp only [endPass, Collector.poll, hnext, Option.map_none]
          exact hbreak ▸ .breakPass hs hnext
        | some readings =>
          have hend : a.endPass i s = { a with
              collector := a.collector.record readings s'.countsPolls }.setSampler i
                (.resting s') := by
            simp only [endPass, Collector.poll, hnext, Option.map_some]
          exact hend ▸ .endPass hs hnext
    next => cases h
  | quitSampler i =>
    simp only [step?] at h
    split at h
    next hs =>
      split at h
      next hstop =>
        obtain rfl := Option.some.inj h
        exact .quitSampler hs hstop
      next => cases h
    next => cases h
  | beginReport =>
    simp only [step?] at h
    split at h
    next hrest =>
      obtain rfl := Option.some.inj h
      exact .beginReport hrest
    next => cases h
  | endReport =>
    simp only [step?] at h
    split at h
    next hbusy =>
      obtain rfl := Option.some.inj h
      exact .endReport hbusy
    next => cases h
  | breakReport =>
    simp only [step?] at h
    split at h
    next hbusy =>
      obtain rfl := Option.some.inj h
      exact .breakReport hbusy
    next => cases h
  | quitReporter =>
    simp only [step?] at h
    split at h
    next hrest =>
      obtain rfl := Option.some.inj h
      exact .quitReporter hrest.1 hrest.2
    next => cases h
  | stop =>
    obtain rfl := Option.some.inj h
    exact .stop
  | flush =>
    simp only [step?] at h
    split at h
    next hquiet =>
      obtain rfl := Option.some.inj h
      exact .flush hquiet.1 hquiet.2
    next => cases h

theorem step?_of_step {a b : AgentState} {m : AgentMove} (h : Step a m b) : a.step? m = some b := by
  cases h with
  | beginPass hs => simp only [step?, hs]
  | endPass hs hnext => simp only [step?, hs, endPass, Collector.poll, hnext, Option.map_some]
  | breakPass hs hnext => simp only [step?, hs, endPass, Collector.poll, hnext, Option.map_none]
  | quitSampler hs hstop => simp only [step?, hs, hstop, if_true]
  | beginReport hrest => simp only [step?, hrest, if_true]
  | endReport hbusy => simp only [step?, hbusy, if_true]
  | breakReport hbusy => simp only [step?, hbusy, if_true]
  | quitReporter hrest hstop => simp only [step?, hrest, hstop, and_self, if_true]
  | stop => rfl
  | flush hquiet hnot => simp only [step?, hquiet, hnot, and_self, if_true]

end AgentState

/-! ## An agent in time -/

/-- The distances of ticks, and when the agent is told to stop, in milliseconds. -/
structure AgentTiming where
  poll : Nat
  report : Nat
  stop : Nat
deriving DecidableEq, Repr

/-- An agent at a point of time. -/
structure AgentClock (σ : Type) where
  agent : AgentState
  outbox : Outbox σ
  /-- The next tick of the samplers. -/
  pollTick : Nat
  /-- The next tick of the reporter, and when it will be handled. -/
  reportTick : Nat
  reportAt : Nat
  /-- When the reporter ends the delivery that it is busy with. -/
  free : Nat
  /-- How the last delivery ended. -/
  last : DispatchEnd

namespace AgentClock

/-- How much later than its tick something is handled before that moves the ticks after it. -/
def tolerance : Nat := 5

/-- The tick after one that was handled at a given time. -/
def nextTick (period tick handled : Nat) : Nat :=
  if tick + tolerance < handled then handled + period else tick + period

/-- An agent at time zero. Its first ticks are one distance away. -/
def start (samplers : List Sampler) (timing : AgentTiming) (s : σ) : AgentClock σ where
  agent := .start samplers
  outbox := ⟨0, s, []⟩
  pollTick := timing.poll
  reportTick := timing.report
  reportAt := timing.report
  free := 0
  last := .returned .none

/-- All samplers make a pass. -/
def poll (timing : AgentTiming) (c : AgentClock σ) : AgentClock σ :=
  { c with
    agent := c.agent.steps ((List.range c.agent.samplers.length).flatMap fun i =>
      [.beginPass i, .endPass i])
    pollTick := c.pollTick + timing.poll }

/-- Delivers the latest snapshot at a given time. -/
def deliver (sender : Sender σ) (plan : DispatchPlan) (time : Nat) (c : AgentClock σ) :
    AgentClock σ :=
  let snapshot := c.agent.reports.getLastD ⟨[]⟩
  let (ending, outbox) := { c.outbox with now := time }.dispatch sender plan snapshot
  { c with outbox := outbox, free := outbox.now, last := ending }

/-- What the end of a delivery is for the reporter; a delivery that is stuck has no end. -/
def reportMoves : DispatchEnd → List AgentMove
  | .returned _ => [.endReport]
  | .crashed => [.breakReport]
  | .stuck => []

/-- The reporter handles its tick. -/
def report (sender : Sender σ) (plan : DispatchPlan) (timing : AgentTiming) (c : AgentClock σ) :
    AgentClock σ :=
  let tick := nextTick timing.report c.reportTick c.reportAt
  let c := { c with agent := c.agent.steps [.beginReport] }.deliver sender plan c.reportAt
  { c with
    agent := c.agent.steps (reportMoves c.last)
    reportTick := tick
    reportAt := max tick c.free }

/-- Whether the next tick is one of the samplers. -/
def isPollNext (timing : AgentTiming) (c : AgentClock σ) : Bool :=
  c.pollTick < timing.stop && (c.agent.reporter ≠ .resting || c.pollTick ≤ c.reportAt)

/-- Whether the next tick is one of the reporter. -/
def isReportNext (timing : AgentTiming) (c : AgentClock σ) : Bool :=
  c.agent.reporter = .resting && c.reportAt < timing.stop

/-- Handles up to `limit` ticks before the agent is told to stop. -/
def tick (sender : Sender σ) (plan : DispatchPlan) (timing : AgentTiming) :
    Nat → AgentClock σ → AgentClock σ
  | 0, c => c
  | limit + 1, c =>
    if c.isPollNext timing then tick sender plan timing limit (c.poll timing)
    else if c.isReportNext timing then
      tick sender plan timing limit (c.report sender plan timing)
    else c

/-- As many ticks as there can be, if every distance is at least one. -/
def tickLimit (timing : AgentTiming) : Nat := 2 * timing.stop

/-- Stops the agent, which delivers a last snapshot, unless the reporter never ends. -/
def finish (sender : Sender σ) (plan : DispatchPlan) (timing : AgentTiming) (c : AgentClock σ) :
    AgentClock σ :=
  let quits := (List.range c.agent.samplers.length).map AgentMove.quitSampler
  let ending := [AgentMove.stop] ++ quits ++ [AgentMove.quitReporter, AgentMove.flush]
  let c := { c with agent := c.agent.steps ending }
  if c.agent.hasFlushed then c.deliver sender plan (max timing.stop c.free) else c

/-- An agent from its start to its last delivery. -/
def run (sender : Sender σ) (plan : DispatchPlan) (timing : AgentTiming) (samplers : List Sampler)
    (s : σ) : AgentClock σ :=
  ((start samplers timing s).tick sender plan timing (tickLimit timing)).finish sender plan timing

end AgentClock

/-! ## Counts -/

namespace AgentState

/-- The polls that an entry of a snapshot tells of. -/
def pollsOf (u : Update) : Int :=
  match u.value with
  | .counter d => if u.id = pollCountId then d.toInt else 0
  | .gauge _ => 0

/-- The polls that a list of entries tells of. -/
def pollsIn : List Update → Int
  | [] => 0
  | u :: us => pollsOf u + pollsIn us

/-- The polls that a list of snapshots tells of. -/
def reported : List Snapshot → Int
  | [] => 0
  | s :: more => pollsIn s.metrics + reported more

/-- All polls: those told of, and those counted since. -/
def counted (a : AgentState) : Int := reported a.reports + a.collector.polls.toInt

theorem pollsIn_append (us vs : List Update) : pollsIn (us ++ vs) = pollsIn us + pollsIn vs := by
  induction us with
  | nil => simp [pollsIn]
  | cons u us ih => simp only [List.cons_append, pollsIn, ih]; omega

theorem reported_append (ss ts : List Snapshot) :
    reported (ss ++ ts) = reported ss + reported ts := by
  induction ss with
  | nil => simp [reported]
  | cons s ss ih => simp only [List.cons_append, reported, ih]; omega

theorem pollsIn_gauges (l : List (String × Binary64)) :
    pollsIn (l.map fun e => ⟨e.1, .gauge e.2⟩) = 0 := by
  induction l with
  | nil => rfl
  | cons e l ih => simp only [List.map_cons, pollsIn, pollsOf, ih]; omega

theorem pollsIn_listing {c : Collector} (h : ¬ c.polls < 0) :
    pollsIn c.listing = c.polls.toInt := by
  simp only [Collector.listing, pollsIn_append, pollsIn_gauges, h, if_false, pollsIn, pollsOf,
    if_true]
  omega

theorem counted_report {a : AgentState} (h : ¬ a.collector.polls < 0) :
    a.report.counted = a.counted := by
  have hzero : (0 : Int64).toInt = 0 := by decide
  simp only [counted, report, reported_append, reported, Collector.snapshot, pollsIn_listing h,
    hzero]
  omega

end AgentState
end Metering
