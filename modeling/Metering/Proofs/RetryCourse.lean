import Mathlib.Algebra.Ring.Nat
import Metering.Retry

/-!
The course of a call that is made again.

A run makes its calls one after another and ends at the first one that leaves nothing to repeat: one
that succeeds, one whose fault is not worth another call, or the last one that the schedule allows.
These reasons can come together. In between it waits, once for each wait of the schedule up to
there, and not behind the last call.

Results:
1. `retry_eq`: for any operation, the call at which a run ends, and what the run has waited.
2. `stateBefore_timed`, `starts_succ`: when each call begins, if calls take time.
3. `calls_on_schedule`: the two together, for any outcomes and durations of the calls.
-/
namespace Metering

/-! ## 1. Where a run ends -/

/-- An outcome after which no other call is made, whatever the schedule has left. -/
def Settles (worth : ε → Bool) : Except ε α → Prop
  | .ok _ => True
  | .error e => worth e = false

/-- The state before the call of an index, if all calls before it are in vain. -/
def stateBefore (pause : Nat → σ → σ) (call : σ → Except ε α × σ) (waits : List Nat) (s : σ) :
    Nat → σ
  | 0 => s
  | i + 1 => pause (waits.getD i 0) (call (stateBefore pause call waits s i)).2

/-- An index is the first one whose call is the last that is allowed, or has an outcome that
settles the run. -/
structure EndsAt (worth : ε → Bool) (outcome : Nat → Except ε α) (most k : Nat) : Prop where
  ends : k = most ∨ Settles worth (outcome k)
  first : ∀ i < k, ¬ (i = most ∨ Settles worth (outcome i))

namespace EndsAt

variable {worth : ε → Bool} {outcome : Nat → Except ε α} {most k : Nat}

theorem zero (h : 0 = most ∨ Settles worth (outcome 0)) : EndsAt worth outcome most 0 :=
  ⟨h, fun i hi => absurd hi (Nat.not_lt_zero i)⟩

theorem succ (h : EndsAt worth (fun i => outcome (i + 1)) most k)
    (hfirst : ¬ Settles worth (outcome 0)) : EndsAt worth outcome (most + 1) (k + 1) where
  ends := h.ends.imp_left (congrArg (· + 1))
  first := by
    intro i hi
    cases i with
    | zero => exact fun hends => hends.elim (fun hzero => nomatch hzero) hfirst
    | succ i =>
      intro hends
      exact h.first i (Nat.lt_of_succ_lt_succ hi) (hends.imp_left Nat.succ.inj)

theorem le (h : EndsAt worth outcome most k) : k ≤ most :=
  Nat.le_of_not_lt fun hlt => h.first most hlt (.inl rfl)

end EndsAt

namespace RetryCourseLemmas

variable {worth : ε → Bool} {pause : Nat → σ → σ} {call : σ → Except ε α × σ}

/-- Behind a first call in vain stands a run on what is left of the schedule. -/
theorem stateBefore_cons (w : Nat) (waits : List Nat) (s : σ) (i : Nat) :
    stateBefore pause call (w :: waits) s (i + 1) =
      stateBefore pause call waits (pause w (call s).2) i := by
  induction i with
  | zero => rfl
  | succ i ih =>
    rw [stateBefore, ih]
    rfl

/-- A first call that settles the run is the last one. -/
theorem retry_of_settles {s : σ} (h : Settles worth (call s).1) (waits : List Nat) :
    retry worth pause call waits s = ⟨(call s).1, (call s).2, []⟩ := by
  cases waits with
  | nil => rfl
  | cons w waits =>
    rcases hcall : call s with ⟨answer, s'⟩
    rw [hcall] at h
    cases answer with
    | ok a => rw [retry, hcall]
    | error e =>
      have hworth : worth e = false := h
      simp only [retry, hcall, hworth, Bool.false_eq_true, if_false]

/-- After a first call that does not, a wait and a run on what is left of the schedule follow. -/
theorem retry_of_not_settles {s : σ} (h : ¬ Settles worth (call s).1) (w : Nat)
    (waits : List Nat) :
    retry worth pause call (w :: waits) s =
      ⟨(retry worth pause call waits (pause w (call s).2)).answer,
        (retry worth pause call waits (pause w (call s).2)).state,
        w :: (retry worth pause call waits (pause w (call s).2)).waited⟩ := by
  rcases hcall : call s with ⟨answer, s'⟩
  rw [hcall] at h
  cases answer with
  | ok a => exact absurd trivial h
  | error e =>
    have hworth : worth e = true := eq_true_of_ne_false h
    simp only [retry, hcall, hworth, if_true]

/-- A run ends with the outcome and the state of the call at which it has to, and has waited as the
schedule says up to there. -/
theorem retry_eq (worth : ε → Bool) (pause : Nat → σ → σ) (call : σ → Except ε α × σ)
    (waits : List Nat) (s : σ) :
    ∃ k, EndsAt worth (fun i => (call (stateBefore pause call waits s i)).1) waits.length k ∧
      retry worth pause call waits s =
        ⟨(call (stateBefore pause call waits s k)).1, (call (stateBefore pause call waits s k)).2,
          waits.take k⟩ := by
  induction waits generalizing s with
  | nil => exact ⟨0, .zero (.inl rfl), rfl⟩
  | cons w waits ih =>
    by_cases hsettles : Settles worth (call s).1
    · exact ⟨0, .zero (.inr hsettles), retry_of_settles hsettles _⟩
    · obtain ⟨k, hends, hrun⟩ := ih (pause w (call s).2)
      refine ⟨k + 1, EndsAt.succ ?_ hsettles, ?_⟩
      · simpa only [stateBefore_cons] using hends
      · rw [retry_of_not_settles hsettles, hrun]
        simp only [stateBefore_cons, List.take_succ_cons]

end RetryCourseLemmas

/-! ## 2. Time -/

/-- When a call began and when it ended. -/
structure CallSpan where
  start : Nat
  finish : Nat
deriving DecidableEq, Repr

/-- A clock, and the calls that have ended. -/
structure CallClock where
  now : Nat
  spans : List CallSpan
deriving DecidableEq, Repr

namespace CallClock

/-- Makes the next call, which has an outcome and takes its time. -/
def call (outcome : Nat → Except ε α) (duration : Nat → Nat) (c : CallClock) :
    Except ε α × CallClock :=
  let i := c.spans.length
  let finish := c.now + duration i
  (outcome i, ⟨finish, c.spans ++ [⟨c.now, finish⟩]⟩)

def pause (wait : Nat) (c : CallClock) : CallClock := { c with now := c.now + wait }

end CallClock

namespace RetryCourseLemmas

/-- When the call of an index begins. -/
def starts (waits : List Nat) (duration : Nat → Nat) (start : Nat) : Nat → Nat
  | 0 => start
  | i + 1 => starts waits duration start i + duration i + waits.getD i 0

/-- When the call of an index begins and when it ends. -/
def spanAt (waits : List Nat) (duration : Nat → Nat) (start i : Nat) : CallSpan :=
  ⟨starts waits duration start i, starts waits duration start i + duration i⟩

variable (outcome : Nat → Except ε α) (duration : Nat → Nat) (waits : List Nat) (start : Nat)

theorem starts_succ {i w : Nat} (h : waits[i]? = some w) :
    (spanAt waits duration start (i + 1)).start = (spanAt waits duration start i).finish + w := by
  show _ + waits.getD i 0 = _
  rw [List.getD_eq_getElem?_getD, h]
  rfl

/-- Before each call the clock shows its beginning, and the calls before it have their times. -/
theorem stateBefore_timed (i : Nat) :
    stateBefore CallClock.pause (CallClock.call outcome duration) waits ⟨start, []⟩ i =
      ⟨starts waits duration start i, (List.range i).map (spanAt waits duration start)⟩ := by
  induction i with
  | zero => rfl
  | succ i ih =>
    rw [stateBefore, ih, List.range_succ, List.map_append]
    simp only [CallClock.call, CallClock.pause, List.length_map, List.length_range]
    rfl

theorem call_timed (i : Nat) :
    CallClock.call outcome duration
        ⟨starts waits duration start i, (List.range i).map (spanAt waits duration start)⟩ =
      (outcome i, ⟨(spanAt waits duration start i).finish,
        (List.range (i + 1)).map (spanAt waits duration start)⟩) := by
  rw [List.range_succ, List.map_append]
  simp only [CallClock.call, List.length_map, List.length_range]
  rfl

theorem getElem?_spans {k i : Nat} (h : i < k) :
    ((List.range k).map (spanAt waits duration start))[i]? =
      some (spanAt waits duration start i) := by
  rw [List.getElem?_map, List.getElem?_range h, Option.map_some]

end RetryCourseLemmas

/-! ## 3. Calls on schedule -/

open RetryCourseLemmas in
/-- Whatever the calls return and however long they take, a run ends, at the first call that
succeeds, or whose fault is not worth another one, or that has as many calls before it as the
schedule has waits. It returns what that call returns and has made that call, all those before it,
and no other. The first one begins at once, and each other one begins when the wait at its place
has passed since the end of the one before it; the run is over when the last one has ended. -/
theorem calls_on_schedule (schedule : RetrySchedule) (worth : ε → Bool)
    (outcome : Nat → Except ε α) (duration : Nat → Nat) (start : Nat) :
    let run := retry worth CallClock.pause (CallClock.call outcome duration) schedule.waits
      ⟨start, []⟩
    ∃ k, EndsAt worth outcome schedule.waits.length k ∧
      run.answer = outcome k ∧
      run.state.spans.length = k + 1 ∧ run.calls = k + 1 ∧ k + 1 ≤ schedule.maxCalls ∧
      run.waited = schedule.waits.take k ∧
      run.state.spans.head?.map CallSpan.start = some start ∧
      (∀ i span, run.state.spans[i]? = some span → span.finish = span.start + duration i) ∧
      (∀ i < k, ∃ w before after, schedule.waits[i]? = some w ∧
        run.state.spans[i]? = some before ∧ run.state.spans[i + 1]? = some after ∧
        after.start = before.finish + w) ∧
      run.state.spans.getLast?.map CallSpan.finish = some run.state.now := by
  obtain ⟨k, hends, hrun⟩ := retry_eq worth CallClock.pause (CallClock.call outcome duration)
    schedule.waits ⟨start, []⟩
  simp only [stateBefore_timed, call_timed] at hends hrun
  rw [hrun]
  have hk : k ≤ schedule.waits.length := hends.le
  refine ⟨k, hends, rfl, ?_, ?_, Nat.succ_le_succ hk, rfl, ?_, ?_, ?_, ?_⟩
  · rw [List.length_map, List.length_range]
  · rw [RetryRun.calls, List.length_take_of_le hk]
  · rw [List.range_succ_eq_map]
    rfl
  · intro i span hspan
    have hi : i < k + 1 := by
      have hlength := (List.getElem?_eq_some_iff.mp hspan).1
      rwa [List.length_map, List.length_range] at hlength
    obtain rfl := Option.some.inj
      (hspan.symm.trans (getElem?_spans duration schedule.waits start hi))
    rfl
  · intro i hi
    have hwait := List.getElem?_eq_getElem (Nat.lt_of_lt_of_le hi hk)
    exact ⟨_, _, _, hwait, getElem?_spans _ _ _ (Nat.lt_succ_of_lt hi),
      getElem?_spans _ _ _ (Nat.succ_lt_succ hi), starts_succ duration schedule.waits start hwait⟩
  · rw [List.range_succ, List.map_append, List.map_singleton, List.getLast?_concat]
    rfl

/-- A call that succeeds the third time, with calls of five milliseconds. -/
theorem calls_on_schedule_third :
    let outcome : Nat → Except Unit Nat := fun i => if i < 2 then .error () else .ok i
    let run := retry (fun _ => true) CallClock.pause (CallClock.call outcome fun _ => 5)
      RetrySchedule.standard.waits ⟨0, []⟩
    EndsAt (fun _ => true) outcome 3 2 ∧ run.answer = .ok 2 ∧
      run.state.spans = [⟨0, 5⟩, ⟨1005, 1010⟩, ⟨4010, 4015⟩] := by
  intro outcome run
  obtain ⟨k, hends, hanswer, hlength, -⟩ :=
    calls_on_schedule RetrySchedule.standard (fun _ => true) outcome (fun _ => 5) 0
  have hspans : run.state.spans = [⟨0, 5⟩, ⟨1005, 1010⟩, ⟨4010, 4015⟩] := by decide
  have htwo : k = 2 := Nat.succ.inj (hlength.symm.trans (congrArg List.length hspans))
  subst htwo
  exact ⟨hends, hanswer, hspans⟩

end Metering
