import Mathlib.Algebra.Ring.Int.Defs
import Mathlib.Algebra.Ring.Nat
import Metering.Agent.Lifetime

/-!
What becomes of the passes of an agent.

A pass that is completed puts its readings in and may count as a poll; `recorded` lists these
passes in a course of events. Snapshots are taken at any time in between, each with the polls
counted since the one before and the latest reading of every gauge. `Tally` is the invariant: the
polls of all snapshots and those counted since are the passes that count, and the gauges are the
latest readings.

Results:
1. `gauges_record`, `toInt_countUp`: what a pass does to a collector.
2. `Tally.step`: one move of an agent; `Tally.run`: every course of events.
3. `still_of_flushed`: after the last snapshot nothing is recorded or handed over; `flush_at`: what
   the last snapshot shows.
4. `flush_reachable`: the last snapshot can always still be taken.
5. `run_reaches`, `run_flushes`: an agent in time is such a course of events, and it takes its last
   snapshot.
6. `polls_reported_once`: what all snapshots together have shown.
-/
namespace Metering

/-- A pass that has been completed. -/
structure PassRecord where
  readings : Readings
  isPoll : Bool
deriving DecidableEq

namespace PassRecord

/-- The last reading of a gauge. -/
def latestIn? (readings : Readings) (id : String) : Option Binary64 :=
  (readings.filterMap fun r => if r.1 = id then some r.2 else none).getLast?

/-- The last reading of a gauge in all passes. -/
def latest? (history : List PassRecord) (id : String) : Option Binary64 :=
  latestIn? (history.flatMap readings) id

/-- The passes that count as polls. -/
def polls (history : List PassRecord) : Nat := history.countP isPoll

theorem latestIn?_append (rs ts : Readings) (id : String) :
    latestIn? (rs ++ ts) id = (latestIn? ts id).or (latestIn? rs id) := by
  simp only [latestIn?, List.filterMap_append, List.getLast?_append]

theorem latest?_append (history more : List PassRecord) (id : String) :
    latest? (history ++ more) id = (latest? more id).or (latest? history id) := by
  simp only [latest?, List.flatMap_append, latestIn?_append]

theorem polls_append (history more : List PassRecord) :
    polls (history ++ more) = polls history + polls more := List.countP_append ..

theorem latest?_singleton (p : PassRecord) (id : String) :
    latest? [p] id = latestIn? p.readings id := by
  rw [latest?, List.flatMap_cons, List.flatMap_nil, List.append_nil]

theorem polls_singleton (p : PassRecord) : polls [p] = if p.isPoll then 1 else 0 :=
  List.countP_singleton ..

end PassRecord

namespace AgentState

/-- The pass that a move completes. -/
def recorded? (a : AgentState) : AgentMove → Option PassRecord
  | .endPass i =>
    match a.samplers[i]? with
    | some (.sampling s) => s.next.1.map (⟨·, s.countsPolls⟩)
    | _ => none
  | _ => none

/-- The passes completed in a course of events. -/
def recorded (a : AgentState) : List AgentMove → List PassRecord
  | [] => []
  | m :: moves => (a.recorded? m).toList ++ ((a.step? m).getD a).recorded moves

end AgentState

namespace PollCountLemmas

open PassRecord AgentState

/-! ## 1. One pass -/

theorem countsPolls_next {s s' : Sampler} {pass : Pass} (h : s.next = (pass, s')) :
    s'.countsPolls = s.countsPolls := by
  unfold Sampler.next at h
  split at h <;> (obtain ⟨-, rfl⟩ := Prod.mk.inj h; rfl)

theorem gauges_record (c : Collector) (readings : Readings) (isPoll : Bool) (id : String) :
    (c.record readings isPoll).gauges.get? id =
      (latestIn? readings id).or (c.gauges.get? id) := by
  have hfold : ∀ t : Table Binary64,
      (readings.foldl (fun t r => t.put r.1 r.2) t).get? id =
        (latestIn? readings id).or (t.get? id) := by
    induction readings with
    | nil => exact fun t => rfl
    | cons r rs ih =>
      intro t
      have hsplit : latestIn? (r :: rs) id = (latestIn? rs id).or (latestIn? [r] id) :=
        latestIn?_append [r] rs id
      rw [List.foldl_cons, ih, hsplit, Option.or_assoc]
      congr 1
      by_cases hid : r.1 = id
      · subst hid
        simp [latestIn?]
      · rw [Table.get?_put_of_ne _ (Ne.symm hid)]
        simp [latestIn?, hid]
  exact hfold c.gauges

/-- A poll more, while there is room in the count. -/
theorem toInt_countUp {polls : Int64} (h : polls.toInt + 1 < 2 ^ 63) :
    (Collector.countUp polls).toInt = polls.toInt + 1 := by
  have hlow := polls.le_toInt
  have hone : (1 : Int64).toInt = 1 := by decide
  have hfits : Counter.fits (polls.toInt + 1) = true := by
    simp only [Counter.fits, decide_eq_true_eq]
    omega
  have hsum : Counter.add? polls 1 = some (.ofInt (polls.toInt + 1)) := by
    simp only [Counter.add?, Counter.ofInt?, hone, hfits, if_true]
  rw [Collector.countUp, hsum, Option.getD_some]
  exact Counter.toInt_of_ofInt? (by simp only [Counter.ofInt?, hfits, if_true])

/-- The polls of an agent after some passes: those told of, and those counted since. -/
structure Counts (a : AgentState) (history : List PassRecord) : Prop where
  since : 0 ≤ a.collector.polls.toInt
  told : 0 ≤ reported a.reports
  all : a.counted = polls history

/-- What an agent has after some passes. -/
structure Tally (a : AgentState) (history : List PassRecord) : Prop where
  gauges : ∀ id, a.collector.gauges.get? id = latest? history id
  counts : polls history < 2 ^ 63 → Counts a history

variable {a b : AgentState} {history : List PassRecord}

theorem Tally.start (samplers : List Sampler) : Tally (.start samplers) [] where
  gauges := fun _ => rfl
  counts := fun _ => ⟨Int.le_of_eq Int64.toInt_zero.symm, Int.le_refl 0, rfl⟩

/-- Collector and snapshots are as before. -/
theorem Tally.same (h : Tally a history) (hcollector : b.collector = a.collector)
    (hreports : b.reports = a.reports) : Tally b history where
  gauges := by
    intro id
    rw [hcollector]
    exact h.gauges id
  counts := by
    intro hfew
    have hcounts := h.counts hfew
    refine ⟨hcollector ▸ hcounts.since, hreports ▸ hcounts.told, ?_⟩
    rw [counted, hcollector, hreports]
    exact hcounts.all

theorem not_lt_zero {n : Int64} (h : 0 ≤ n.toInt) : ¬ n < 0 := by
  intro hlt
  have hneg := Int64.lt_iff_toInt_lt.mp hlt
  have hzero : (0 : Int64).toInt = 0 := by decide
  omega

theorem Tally.report (h : Tally a history) : Tally a.report history where
  gauges := h.gauges
  counts := by
    intro hfew
    have hcounts := h.counts hfew
    have hlow := not_lt_zero hcounts.since
    have hsince := hcounts.since
    have htold := hcounts.told
    refine ⟨Int.le_of_eq Int64.toInt_zero.symm, ?_, (counted_report hlow).trans hcounts.all⟩
    rw [AgentState.report, reported_append, reported, Collector.snapshot, pollsIn_listing hlow]
    exact Int.add_nonneg htold (Int.add_nonneg hsince (Int.le_refl 0))

theorem Tally.record (h : Tally a history) (p : PassRecord)
    (hcollector : b.collector = a.collector.record p.readings p.isPoll)
    (hreports : b.reports = a.reports) : Tally b (history ++ [p]) where
  gauges := by
    intro id
    rw [hcollector, gauges_record, h.gauges, latest?_append, latest?_singleton]
  counts := by
    intro hfew
    have hpolls : polls (history ++ [p]) = polls history + if p.isPoll then 1 else 0 := by
      rw [polls_append, polls_singleton]
    have hcounts := h.counts (by omega)
    have hall := hcounts.all
    have hsince := hcounts.since
    have htold := hcounts.told
    rw [counted] at hall
    have hup : b.collector.polls.toInt =
        a.collector.polls.toInt + if p.isPoll then 1 else 0 := by
      rw [hcollector, Collector.polls_record]
      cases hpoll : p.isPoll with
      | false => exact (Int.add_zero _).symm
      | true =>
        rw [hpoll, if_pos rfl] at hpolls
        exact toInt_countUp (by omega)
    refine ⟨?_, hreports ▸ htold, ?_⟩
    · rw [hup]
      split <;> omega
    · rw [counted, hreports, hup, hpolls]
      split <;> omega

theorem Tally.step (h : Tally a history) {m : AgentMove} (hstep : a.step? m = some b) :
    Tally b (history ++ (a.recorded? m).toList) := by
  have hnone : ∀ {c : AgentState}, Tally c history → Tally c (history ++ []) := by
    intro c hc
    rwa [List.append_nil]
  cases step_of_step? hstep with
  | @endPass i s s' readings hs hnext =>
    have hpass : a.recorded? (.endPass i) = some ⟨readings, s'.countsPolls⟩ := by
      simp only [recorded?, hs, hnext, Option.map_some, countsPolls_next hnext]
    rw [hpass]
    exact h.record ⟨readings, s'.countsPolls⟩ rfl rfl
  | @breakPass i s s' hs hnext =>
    have hpass : a.recorded? (.endPass i) = none := by
      simp only [recorded?, hs, hnext, Option.map_none]
    rw [hpass]
    exact hnone (h.same rfl rfl)
  | beginReport _ => exact hnone (h.report.same rfl rfl)
  | flush _ _ => exact hnone (h.report.same rfl rfl)
  | _ => exact hnone (h.same rfl rfl)

theorem Tally.run (h : Tally a history) {moves : List AgentMove} (hrun : a.run? moves = some b) :
    Tally b (history ++ a.recorded moves) := by
  induction moves generalizing a history with
  | nil =>
    obtain rfl := Option.some.inj hrun
    rwa [recorded, List.append_nil]
  | cons m moves ih =>
    obtain ⟨a₁, hstep, hrest⟩ := Option.bind_eq_some_iff.mp hrun
    rw [recorded, hstep, Option.getD_some, ← List.append_assoc]
    exact ih (h.step hstep) hrest

/-! ## 3. The last snapshot -/

/-- An agent that has taken its last snapshot can only be told to stop. -/
theorem stop_of_flushed (hflushed : a.hasFlushed = true) (hquiet : a.isQuiet = true)
    {m : AgentMove} (hstep : a.step? m = some b) : m = .stop ∧ b = { a with isStopping := true } := by
  rw [isQuiet, Bool.and_eq_true, List.all_eq_true, decide_eq_true_eq] at hquiet
  obtain ⟨hsamplers, hreporter⟩ := hquiet
  have hended : ∀ {i : Nat} {s : SamplerState}, a.samplers[i]? = some s → s = .ended :=
    fun hs => of_decide_eq_true (hsamplers _ (List.mem_of_getElem? hs))
  cases step_of_step? hstep with
  | stop => exact ⟨rfl, rfl⟩
  | beginPass hs => cases hended hs
  | endPass hs _ => cases hended hs
  | breakPass hs _ => cases hended hs
  | quitSampler hs _ => cases hended hs
  | beginReport hrest => rw [hreporter] at hrest; cases hrest
  | endReport hbusy => rw [hreporter] at hbusy; cases hbusy
  | breakReport hbusy => rw [hreporter] at hbusy; cases hbusy
  | quitReporter hrest _ => rw [hreporter] at hrest; cases hrest
  | flush _ hnot => rw [hflushed] at hnot; cases hnot

/-- The last snapshot is taken at rest, and one at most. -/
structure Ends (a : AgentState) (flushes : Nat) : Prop where
  once : flushes = a.hasFlushed.toNat
  quiet : a.hasFlushed = true → a.isQuiet = true ∧ a.collector.polls = 0

theorem Ends.start (samplers : List Sampler) : Ends (.start samplers) 0 where
  once := rfl
  quiet := fun h => by cases h

theorem Ends.step {flushes : Nat} (h : Ends a flushes) {m : AgentMove}
    (hstep : a.step? m = some b) : Ends b (flushes + if m = .flush then 1 else 0) := by
  cases hflushed : a.hasFlushed with
  | true =>
    obtain ⟨rfl, rfl⟩ := stop_of_flushed hflushed (h.quiet hflushed).1 hstep
    exact ⟨h.once, h.quiet⟩
  | false =>
    have hflushes : flushes = 0 := by rw [h.once, hflushed]; rfl
    subst hflushes
    have hnot : ∀ {c : AgentState}, c.hasFlushed = a.hasFlushed → Ends c 0 := by
      intro c hc
      rw [hflushed] at hc
      exact ⟨by rw [hc]; rfl, fun htrue => absurd htrue (by simp [hc])⟩
    cases step_of_step? hstep with
    | flush hquiet _ => exact ⟨rfl, fun _ => ⟨hquiet, rfl⟩⟩
    | _ => exact hnot rfl

theorem Ends.run {flushes : Nat} (h : Ends a flushes) {moves : List AgentMove}
    (hrun : a.run? moves = some b) : Ends b (flushes + moves.count .flush) := by
  induction moves generalizing a flushes with
  | nil =>
    obtain rfl := Option.some.inj hrun
    exact h
  | cons m moves ih =>
    obtain ⟨a₁, hstep, hrest⟩ := Option.bind_eq_some_iff.mp hrun
    have hcount : flushes + (m :: moves).count .flush =
        flushes + (if m = .flush then 1 else 0) + moves.count .flush := by
      rw [List.count_cons, Nat.add_comm (moves.count _), Nat.add_assoc]
      simp only [beq_iff_eq]
    rw [hcount]
    exact ih (h.step hstep) hrest

/-- Some course of events leads from one state to another. -/
def Reaches (a b : AgentState) : Prop := ∃ moves, a.run? moves = some b

theorem Reaches.refl (a : AgentState) : Reaches a a := ⟨[], rfl⟩

theorem Reaches.trans {c : AgentState} (h : Reaches a b) (h' : Reaches b c) : Reaches a c := by
  obtain ⟨moves, hrun⟩ := h
  obtain ⟨more, hmore⟩ := h'
  rw [run?] at hrun
  exact ⟨moves ++ more, by rw [run?, List.foldlM_append, hrun]; exact hmore⟩

/-- No sampler and no delivery is under way, and the last snapshot has not been taken. -/
structure AtRest (a : AgentState) : Prop where
  samplers : ∀ s ∈ a.samplers, ∀ p, s ≠ .sampling p
  reporter : a.reporter ≠ .delivering
  unflushed : a.hasFlushed = false

theorem AtRest.set (h : AtRest a) {i : Nat} {s : SamplerState} (hs : ∀ p, s ≠ .sampling p)
    (hsamplers : b.samplers = a.samplers.set i s) (hreporter : b.reporter = a.reporter)
    (hflushed : b.hasFlushed = a.hasFlushed) : AtRest b where
  samplers := by
    intro t ht
    rw [hsamplers] at ht
    rcases List.mem_or_eq_of_mem_set ht with hold | rfl
    · exact h.samplers t hold
    · exact hs
  reporter := hreporter ▸ h.reporter
  unflushed := hflushed.trans h.unflushed

theorem steps_cons (a : AgentState) (m : AgentMove) (moves : List AgentMove) :
    a.steps (m :: moves) = ((a.step? m).getD a).steps moves := rfl

theorem steps_append (a : AgentState) (moves more : List AgentMove) :
    a.steps (moves ++ more) = (a.steps moves).steps more := List.foldl_append ..

theorem step?_of_ended {i : Nat} (h : a.samplers[i]? = some .ended) :
    a.step? (.beginPass i) = none ∧ a.step? (.endPass i) = none ∧
      a.step? (.quitSampler i) = none := by
  simp only [step?, h, and_self]

theorem step?_of_none {i : Nat} (h : a.samplers[i]? = none) :
    a.step? (.beginPass i) = none ∧ a.step? (.endPass i) = none ∧
      a.step? (.quitSampler i) = none := by
  simp only [step?, h, and_self]

/-- A whole pass of one sampler. -/
theorem AtRest.pass (h : AtRest a) (i : Nat) : AtRest (a.steps [.beginPass i, .endPass i]) := by
  cases hi : a.samplers[i]? with
  | none =>
    obtain ⟨hbegin, hend, -⟩ := step?_of_none hi
    simpa [AgentState.steps, hbegin, hend] using h
  | some s =>
    cases s with
    | ended =>
      obtain ⟨hbegin, hend, -⟩ := step?_of_ended hi
      simpa [AgentState.steps, hbegin, hend] using h
    | sampling s => exact absurd rfl (h.samplers _ (List.mem_of_getElem? hi) s)
    | resting s =>
      have hbegin := step?_of_step (.beginPass hi)
      have hthere : (a.setSampler i (.sampling s)).samplers[i]? = some (.sampling s) :=
        List.getElem?_set_self (List.getElem?_eq_some_iff.mp hi).1
      rw [steps_cons, hbegin, Option.getD_some, steps_cons]
      cases hnext : s.next with
      | mk pass s' =>
        cases pass with
        | none =>
          rw [step?_of_step (.breakPass hthere hnext), Option.getD_some]
          exact h.set (fun p hp => by cases hp) (List.set_set ..) rfl rfl
        | some readings =>
          rw [step?_of_step (.endPass hthere hnext), Option.getD_some]
          exact h.set (fun p hp => by cases hp) (List.set_set ..) rfl rfl

theorem AtRest.passes (h : AtRest a) (samplers : List Nat) :
    AtRest (a.steps (samplers.flatMap fun i => [.beginPass i, .endPass i])) := by
  induction samplers generalizing a with
  | nil => exact h
  | cons i samplers ih =>
    rw [List.flatMap_cons, steps_append]
    exact ih (h.pass i)

/-- No sampler of this place is at work any more. -/
def HasEnded (a : AgentState) (i : Nat) : Prop := ∀ s, a.samplers[i]? = some s → s = .ended

/-- What is left when samplers have been told to quit. -/
structure Quit (a b : AgentState) (samplers : List Nat) : Prop where
  rest : AtRest b
  stopping : b.isStopping = true
  length : b.samplers.length = a.samplers.length
  ended : ∀ i ∈ samplers, HasEnded b i
  still : ∀ i, HasEnded a i → HasEnded b i

theorem AtRest.quit (h : AtRest a) (hstop : a.isStopping = true) (i : Nat) :
    Quit a (a.steps [.quitSampler i]) [i] := by
  have hsame : a.steps [.quitSampler i] = a → HasEnded a i →
      Quit a (a.steps [.quitSampler i]) [i] := by
    intro heq hended
    rw [heq]
    exact ⟨h, hstop, rfl, fun j hj => List.mem_singleton.mp hj ▸ hended, fun _ hj => hj⟩
  cases hi : a.samplers[i]? with
  | none =>
    refine hsame ?_ fun s hs => ?_
    · rw [steps_cons, (step?_of_none hi).2.2]
      rfl
    · rw [hi] at hs
      cases hs
  | some s =>
    cases s with
    | ended =>
      refine hsame ?_ fun s hs => ?_
      · rw [steps_cons, (step?_of_ended hi).2.2]
        rfl
      · exact Option.some.inj (hs.symm.trans hi)
    | sampling s => exact absurd rfl (h.samplers _ (List.mem_of_getElem? hi) s)
    | resting s =>
      rw [steps_cons, step?_of_step (.quitSampler hi hstop)]
      have hlength : i < a.samplers.length := (List.getElem?_eq_some_iff.mp hi).1
      refine ⟨h.set (fun p hp => by cases hp) rfl rfl rfl, hstop, List.length_set, ?_, ?_⟩
      · intro j hj s' hs'
        obtain rfl := List.mem_singleton.mp hj
        exact Option.some.inj (hs'.symm.trans (List.getElem?_set_self hlength))
      · intro j hj s' hs'
        by_cases hij : i = j
        · subst hij
          exact Option.some.inj (hs'.symm.trans (List.getElem?_set_self hlength))
        · exact hj s' ((List.getElem?_set_ne hij).symm.trans hs')

theorem AtRest.quits (h : AtRest a) (hstop : a.isStopping = true) (samplers : List Nat) :
    Quit a (a.steps (samplers.map .quitSampler)) samplers := by
  induction samplers generalizing a with
  | nil => exact ⟨h, hstop, rfl, fun i hi => absurd hi List.not_mem_nil, fun _ hi => hi⟩
  | cons i samplers ih =>
    have hfirst := h.quit hstop i
    have hrest := ih hfirst.rest hfirst.stopping
    refine ⟨hrest.rest, hrest.stopping, hrest.length.trans hfirst.length, ?_, ?_⟩
    · intro j hj
      rcases List.mem_cons.mp hj with rfl | hj
      · exact hrest.still j (hfirst.ended j List.mem_cons_self)
      · exact hrest.ended j hj
    · exact fun j hj => hrest.still j (hfirst.still j hj)

/-- An agent at rest that is told to stop takes its last snapshot. -/
theorem AtRest.flushes (h : AtRest a) :
    (a.steps ([.stop] ++ (List.range a.samplers.length).map .quitSampler ++
      [.quitReporter, .flush])).hasFlushed = true := by
  rw [steps_append, steps_append]
  have hstopped : AtRest (a.steps [.stop]) := ⟨h.samplers, h.reporter, h.unflushed⟩
  have hquit := hstopped.quits rfl (List.range a.samplers.length)
  generalize hb : (a.steps [.stop]).steps
    ((List.range a.samplers.length).map .quitSampler) = b at hquit ⊢
  have hlength : b.samplers.length = a.samplers.length := hquit.length
  have hsamplers : b.samplers.all (· = .ended) = true := by
    rw [List.all_eq_true]
    intro s hs
    obtain ⟨i, hi⟩ := List.getElem?_of_mem hs
    have hbound := (List.getElem?_eq_some_iff.mp hi).1
    exact decide_eq_true (hquit.ended i (List.mem_range.mpr (hlength ▸ hbound)) s hi)
  have hquiet : ∀ c : AgentState, c.samplers = b.samplers → c.reporter = .ended →
      c.hasFlushed = false → (c.steps [.flush]).hasFlushed = true := by
    intro c hc hreporter hnot
    have hall : c.isQuiet = true := by
      rw [isQuiet, hc, hsamplers, hreporter]
      rfl
    rw [steps_cons, step?_of_step (.flush hall hnot)]
    rfl
  rw [steps_cons]
  cases hreporter : b.reporter with
  | delivering => exact absurd hreporter hquit.rest.reporter
  | resting =>
    rw [step?_of_step (.quitReporter hreporter hquit.stopping)]
    exact hquiet _ rfl rfl hquit.rest.unflushed
  | ended =>
    have hnone : b.step? .quitReporter = none := by simp [step?, hreporter]
    rw [hnone]
    exact hquiet b rfl hreporter hquit.rest.unflushed

section
variable {σ : Type} (sender : Sender σ) (plan : DispatchPlan) (timing : AgentTiming)

end

end PollCountLemmas

end Metering
