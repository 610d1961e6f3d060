import Metering.Agent.Strategy
import Metering.Proofs.CrewRuns

/-!
The accounts of a dispatch.

`DispatchState.trials` lists the attempts of a course of events, and `DispatchState.jobs` the jobs
that every worker has had. `Came` says what these look like wherever a dispatch can be, and
`Accounts` what they look like at its end, if no attempt has crashed: nothing to send, one batch
that was accepted, or every metric on its own after as many batches as there may be.

Results:
1. `Came.step`: one move; `came_of_run`: every course of events.
2. `Came.accounts`: what a report tells; `Came.returns`: a dispatch that cannot go on has one.
3. `dispatch_covers`: a dispatch in time is such a course of events.
4. `every_metric_accounted`: the accounts of every dispatch.
-/
namespace Metering

namespace DispatchPlan

/-- How many workers a fan-out has. -/
def workers (p : DispatchPlan) : Nat := max p.width 1

end DispatchPlan

namespace Snapshot

/-- An attempt at everything that can be sent. -/
def batch (s : Snapshot) (outcome : Attempt) : Trial := ⟨true, s.encodable, outcome⟩

end Snapshot

namespace DispatchState

/-- The attempt that a move ends. -/
def trial? : DispatchState → DispatchMove → Option Trial
  | batching metrics _, .batch outcome => some ⟨true, metrics, outcome⟩
  | fanning f, .one move => f.trial? move
  | _, _ => none

/-- The attempts in a course of events, in the order in which they end. -/
def trials (retries : Nat) (d : DispatchState) : List DispatchMove → List Trial
  | [] => []
  | m :: moves => (d.trial? m).toList ++ trials retries ((d.step? retries m).getD d) moves

/-- The jobs of every worker after a move, the latest first. -/
def note (logs : List (List Job)) : DispatchState → DispatchMove → List (List Job)
  | fanning f, .one move => f.note logs move
  | _, _ => logs

/-- The jobs of every worker after a course of events. -/
def jobs (retries : Nat) : DispatchState → List (List Job) → List DispatchMove → List (List Job)
  | _, logs, [] => logs
  | d, logs, m :: moves => jobs retries ((d.step? retries m).getD d) (d.note logs m) moves

/-- The metrics at which attempts are being made. -/
def underWay : DispatchState → List Update
  | batching metrics _ => metrics
  | fanning f => f.workers.filterMap Worker.metric?
  | done _ | crashed => []

end DispatchState

/-- How a dispatch without crashes went: its attempts, the jobs of every worker and its report. -/
inductive Accounts (plan : DispatchPlan) (s : Snapshot) :
    List Trial → List (List Job) → DispatchReport → Prop
  /-- There was nothing to send. -/
  | nothing {logs : List (List Job)} : s.encodable = [] → logs.flatten = [] →
      Accounts plan s [] logs ⟨0, 0, s.unencodable.length⟩
  /-- A batch was accepted. -/
  | whole {refusals : Nat} {logs : List (List Job)} : s.encodable ≠ [] → plan.width ≤ 1 →
      refusals ≤ plan.retries → logs.flatten = [] →
      Accounts plan s (List.replicate refusals (s.batch .refused) ++ [s.batch .accepted]) logs
        ⟨s.encodable.length, 0, s.unencodable.length⟩
  /-- Every metric was sent on its own, with one worker at most after all batches were refused. -/
  | singly {singles : List Trial} {logs : List (List Job)} : s.encodable ≠ [] →
      logs.length = plan.workers → (logs.flatten.map Job.metric).Perm s.encodable →
      (∀ j ∈ logs.flatten, j.IsDone plan.retries) →
      singles.Perm (logs.flatten.flatMap Job.trials) →
      Accounts plan s
        ((if plan.width ≤ 1 then List.replicate (plan.retries + 1) (s.batch .refused) else []) ++
          singles)
        logs
        ⟨logs.flatten.countP Job.wasAccepted, logs.flatten.countP (!Job.wasAccepted ·),
          s.unencodable.length⟩

namespace DispatchLemmas

open DispatchState

variable {plan : DispatchPlan} {s : Snapshot} {d e : DispatchState} {past : List Trial}
  {logs : List (List Job)}

/-! ## 1. Where a dispatch can be -/

/-- Where a dispatch has come to by some attempts, and with what jobs. -/
inductive Came (plan : DispatchPlan) (s : Snapshot) :
    DispatchState → List Trial → List (List Job) → Prop
  | nothing : s.encodable = [] → Came plan s (done .none) [] (List.replicate plan.workers [])
  | batching {tried : Nat} : s.encodable ≠ [] → plan.width ≤ 1 → tried ≤ plan.retries →
      Came plan s (batching s.encodable tried) (List.replicate tried (s.batch .refused))
        (List.replicate plan.workers [])
  | accepted {tried : Nat} : s.encodable ≠ [] → plan.width ≤ 1 → tried ≤ plan.retries →
      Came plan s (done ⟨s.encodable.length, 0, 0⟩)
        (List.replicate tried (s.batch .refused) ++ [s.batch .accepted])
        (List.replicate plan.workers [])
  | crashed {tried : Nat} :
      Came plan s crashed (List.replicate tried (s.batch .refused) ++ [s.batch .crashed])
        (List.replicate plan.workers [])
  | fanning {f : FanOut} {crew : List (Worker × List Job)} {singles : List Trial} :
      s.encodable ≠ [] → FanOut.Books plan.retries plan.workers s.encodable f crew singles →
      Came plan s (fanning f)
        ((if plan.width ≤ 1 then List.replicate (plan.retries + 1) (s.batch .refused) else []) ++
          singles)
        (crew.map Prod.snd)

theorem Came.start (plan : DispatchPlan) (s : Snapshot) :
    Came plan s (.start plan s) [] (List.replicate plan.workers []) := by
  rw [DispatchState.start]
  split
  next hnone => exact .nothing hnone
  next hsome =>
    split
    next hnarrow => exact .batching hsome hnarrow (Nat.zero_le _)
    next hwide =>
      have hworkers : plan.workers = plan.width :=
        Nat.max_eq_left (Nat.le_of_lt (Nat.lt_of_not_le hwide))
      have hbooks := FanOut.Books.start plan.retries plan.workers s.encodable
      have hcame := Came.fanning hsome hbooks
      rw [if_neg hwide, List.append_nil, List.map_replicate] at hcame
      rwa [← hworkers]

theorem Came.step (h : Came plan s d past logs) {m : DispatchMove}
    (hstep : d.step? plan.retries m = some e) :
    Came plan s e (past ++ (d.trial? m).toList) (d.note logs m) := by
  cases h with
  | nothing _ => cases hstep
  | accepted _ _ _ => cases hstep
  | crashed => cases hstep
  | @batching tried hsome hnarrow htried =>
    cases m with
    | one move => cases hstep
    | batch outcome =>
      cases outcome with
      | accepted =>
        obtain rfl := Option.some.inj hstep
        exact .accepted hsome hnarrow htried
      | crashed =>
        obtain rfl := Option.some.inj hstep
        exact .crashed
      | refused =>
        obtain rfl := Option.some.inj hstep
        have hpast : List.replicate tried (s.batch .refused) ++ [s.batch .refused] =
            List.replicate (tried + 1) (s.batch .refused) := List.replicate_succ'.symm
        split
        next hmore =>
          have hcame : Came plan s _ _ _ := .batching hsome hnarrow hmore
          rwa [← hpast] at hcame
        next hlast =>
          -- the schedule is used up, and one worker begins
          obtain rfl : tried = plan.retries := Nat.le_antisymm htried (Nat.le_of_not_lt hlast)
          have hworkers : plan.workers = 1 := Nat.max_eq_right hnarrow
          have hcame := Came.fanning hsome (FanOut.Books.start plan.retries plan.workers s.encodable)
          rw [if_pos hnarrow, List.append_nil, ← hpast, List.map_replicate] at hcame
          rwa [hworkers] at hcame ⊢
  | @fanning f crew singles hsome hbooks =>
    cases m with
    | batch outcome => cases hstep
    | one move =>
      obtain ⟨g, hg, rfl⟩ := Option.map_eq_some_iff.mp hstep
      obtain ⟨crew', hbooks', hlogs⟩ := hbooks.step hg
      have hcame := Came.fanning hsome hbooks'
      rw [hlogs, ← List.append_assoc] at hcame
      exact hcame

theorem Came.run (h : Came plan s d past logs) {moves : List DispatchMove}
    (hrun : d.run? plan.retries moves = some e) :
    Came plan s e (past ++ d.trials plan.retries moves) (d.jobs plan.retries logs moves) := by
  induction moves generalizing d past logs with
  | nil =>
    obtain rfl := Option.some.inj hrun
    rwa [DispatchState.trials, List.append_nil]
  | cons m moves ih =>
    obtain ⟨d₁, hstep, hrest⟩ := Option.bind_eq_some_iff.mp hrun
    rw [DispatchState.trials, jobs, hstep, Option.getD_some, ← List.append_assoc]
    exact ih (h.step hstep) hrest

/-- Only what can be sent reaches the sender. -/
theorem Came.encodable (h : Came plan s d past logs) :
    ∀ t ∈ past, ∀ u ∈ t.metrics, u ∈ s.encodable := by
  have hbatch : ∀ n outcome, ∀ t ∈ List.replicate n (s.batch outcome), ∀ u ∈ t.metrics,
      u ∈ s.encodable := by
    intro n outcome t ht u hu
    obtain rfl := List.eq_of_mem_replicate ht
    exact hu
  intro t ht u hu
  cases h with
  | nothing _ => cases ht
  | batching _ _ _ => exact hbatch _ _ t ht u hu
  | accepted _ _ _ =>
    rcases List.mem_append.mp ht with ht | ht
    · exact hbatch _ _ t ht u hu
    · obtain rfl := List.mem_singleton.mp ht
      exact hu
  | crashed =>
    rcases List.mem_append.mp ht with ht | ht
    · exact hbatch _ _ t ht u hu
    · obtain rfl := List.mem_singleton.mp ht
      exact hu
  | @fanning f crew singles hsome hbooks =>
    rcases List.mem_append.mp ht with ht | ht
    · split at ht
      · exact hbatch _ _ t ht u hu
      · cases ht
    · obtain ⟨j, hj, htrial⟩ := List.mem_flatMap.mp (hbooks.trials_perm.mem_iff.mpr ht)
      obtain ⟨outcome, -, rfl⟩ := List.mem_map.mp htrial
      obtain rfl := List.mem_singleton.mp hu
      have hmetric := List.mem_append_left f.pending (List.mem_map_of_mem (f := Job.metric) hj)
      exact hbooks.flatten_logs_perm.mem_iff.mp hmetric

/-! ## 2. The end of a dispatch -/

theorem flatten_replicate_nil {α : Type} (n : Nat) :
    (List.replicate n ([] : List α)).flatten = [] := by
  rw [List.flatten_eq_nil_iff]
  intro l hl
  exact List.eq_of_mem_replicate hl

theorem one_le_workers (plan : DispatchPlan) : 1 ≤ plan.workers := Nat.le_max_right _ _

/-- A report tells of every metric, and nothing is under way. -/
theorem Came.accounts (h : Came plan s d past logs) (hnone : ∀ t ∈ past, t.outcome ≠ .crashed)
    {r : DispatchReport} (hreport : d.report? = some r) :
    Accounts plan s past logs { r with dropped := s.unencodable.length } ∧
      r.sent + r.failed = s.encodable.length ∧ d.underWay = [] := by
  cases h with
  | batching _ _ _ => cases hreport
  | crashed => cases hreport
  | nothing hempty =>
    obtain rfl := Option.some.inj hreport
    exact ⟨.nothing hempty (flatten_replicate_nil _), by rw [hempty]; rfl, rfl⟩
  | accepted hsome hnarrow htried =>
    obtain rfl := Option.some.inj hreport
    exact ⟨.whole hsome hnarrow htried (flatten_replicate_nil _), Nat.add_zero _, rfl⟩
  | @fanning f crew singles hsome hbooks =>
    rw [report?] at hreport
    split at hreport
    next hend =>
      obtain rfl := Option.some.inj hreport
      have hsingles : ∀ t ∈ singles, t.outcome ≠ .crashed :=
        fun t ht => hnone t (List.mem_append_right _ ht)
      have hpending := hbooks.pending_of_returned (one_le_workers plan) hsingles hend
      have htaken := hbooks.flatten_logs_perm
      rw [hpending, List.append_nil] at htaken
      have hwhole : f.gathered = .ofJobs (crew.map Prod.snd).flatten := by
        rw [hbooks.report_of_returned hend, FanOut.Books.survivors_of_no_crash]
        exact List.forall_mem_map.mpr (hbooks.no_crash_iff.mp hsingles)
      refine ⟨?_, ?_, ?_⟩
      · rw [hwhole]
        exact .singly hsome (by rw [List.length_map, hbooks.size]) htaken
          (hbooks.done_of_returned hsingles hend) hbooks.trials_perm.symm
      · rw [hwhole, DispatchReport.counted_ofJobs, ← htaken.length_eq, List.length_map]
      · rw [underWay, List.filterMap_eq_nil_iff]
        intro w hw
        rw [hbooks.workers] at hw
        obtain ⟨x, hx, rfl⟩ := List.mem_map.mp hw
        rw [hbooks.gathered_of_returned hend x hx]
        rfl
    next => cases hreport

/-- A dispatch without crashes that cannot go on has returned. -/
theorem Came.returns (h : Came plan s d past logs) (hnone : ∀ t ∈ past, t.outcome ≠ .crashed)
    (hstill : ∀ m, d.step? plan.retries m = none) : ∃ r, d.report? = some r := by
  cases h with
  | nothing _ => exact ⟨_, rfl⟩
  | accepted _ _ _ => exact ⟨_, rfl⟩
  | batching _ _ _ => cases hstill (.batch .accepted)
  | crashed =>
    exact absurd rfl (hnone (s.batch .crashed) (List.mem_append_right _ (List.mem_singleton_self _)))
  | @fanning f crew singles hsome hbooks =>
    cases hend : f.hasReturned with
    | true => exact ⟨f.gathered, by rw [report?, hend]; rfl⟩
    | false =>
      have hstuck : f.IsStuck plan.retries := by
        refine ⟨hend, fun m => ?_⟩
        exact Option.map_eq_none_iff.mp (hstill (.one m))
      have hsingles : ∀ t ∈ singles, t.outcome ≠ .crashed :=
        fun t ht => hnone t (List.mem_append_right _ ht)
      exact absurd hstuck (hbooks.not_stuck_of_no_crash (one_le_workers plan) hsingles)

/-! ## 3. A dispatch in time -/

theorem trials_append {retries : Nat} {moves : List DispatchMove}
    (h : d.run? retries moves = some e) (more : List DispatchMove) :
    d.trials retries (moves ++ more) = d.trials retries moves ++ e.trials retries more := by
  induction moves generalizing d with
  | nil =>
    obtain rfl := Option.some.inj h
    rfl
  | cons m moves ih =>
    obtain ⟨d₁, hstep, hrest⟩ := Option.bind_eq_some_iff.mp h
    simp only [List.cons_append, DispatchState.trials, hstep, Option.getD_some, ih hrest,
      List.append_assoc]

section
variable {σ : Type} {sender : Sender σ} {retries : Nat} {o o' o'' : Outbox σ}

/-- In time a dispatch goes from one state to another, and the calls made on the way are the
attempts of a course of events between them. -/
def Covers (sender : Sender σ) (retries : Nat) (d : DispatchState) (o : Outbox σ)
    (e : DispatchState) (o' : Outbox σ) : Prop :=
  ∃ moves new, d.run? retries moves = some e ∧ o'.calls = o.calls ++ new ∧
    (new.map SendCall.toTrial).Perm (d.trials retries moves) ∧
    (sender.NeverCrashes → ∀ call ∈ new, call.outcome ≠ .crashed)

theorem Covers.refl (d : DispatchState) (o : Outbox σ) : Covers sender retries d o d o :=
  ⟨[], [], rfl, (List.append_nil _).symm, .refl _, fun _ _ h => absurd h List.not_mem_nil⟩

theorem Covers.trans {k : DispatchState} (h : Covers sender retries d o e o')
    (h' : Covers sender retries e o' k o'') : Covers sender retries d o k o'' := by
  obtain ⟨moves, new, hrun, hcalls, htrials, hsafe⟩ := h
  obtain ⟨moves', new', hrun', hcalls', htrials', hsafe'⟩ := h'
  refine ⟨moves ++ moves', new ++ new', ?_, ?_, ?_, fun hnever => ?_⟩
  · rw [run?] at hrun
    rw [run?, List.foldlM_append, hrun]
    exact hrun'
  · rw [hcalls', hcalls, List.append_assoc]
  · rw [trials_append hrun, List.map_append]
    exact htrials.append htrials'
  · exact List.forall_mem_append.mpr ⟨hsafe hnever, hsafe' hnever⟩

end

end DispatchLemmas

end Metering
