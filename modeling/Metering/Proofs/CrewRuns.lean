import Metering.Agent.Dispatch
import Metering.Proofs.FanOutBooks

/-!
A fan-out in time is a course of events.

A crew carries a fan-out along: between events it makes the prompt moves until none is left, and at
an event one worker begins or ends an attempt. `Follows` is the invariant: the fan-out has come to
where it is by moves that it admits, every worker that is at work has one event due, and the calls
to the sender are the attempts of the course and those that are under way.

Results:
1. `insertDue_perm`, `eq_none_of_promptMove?`: what the pieces of a crew do.
2. `Follows.quiet` to `Follows.finish`: the four ways in which a crew goes on.
3. `Follows.settle`, `Follows.handle`, `Follows.run`: settling, one event and all events.
4. `fanOut_follows`: a fan-out in time is a course of events after which nothing can happen.
-/
namespace Metering

/-- No attempt crashes. -/
structure Sender.NeverCrashes {σ : Type} (sender : Sender σ) : Prop where
  batch : ∀ metrics s, (sender.batch metrics s).1.1 ≠ .crashed
  one : ∀ metric s, (sender.one metric s).1.1 ≠ .crashed

namespace FanOut

/-- The metric that the worker of a given place is at work on. -/
def metricAt (f : FanOut) (index : Nat) : Option Update := f.workers[index]?.bind Worker.metric?

theorem metricAt_set {f g : FanOut} {i : Nat} {w w' : Worker} (hw : f.workers[i]? = some w)
    (hset : g.workers = f.workers.set i w') (j : Nat) :
    g.metricAt j = if i = j then w'.metric? else f.metricAt j := by
  have hbound : i < f.workers.length := (List.getElem?_eq_some_iff.mp hw).1
  rw [metricAt, hset]
  split
  next h =>
    subst h
    rw [List.getElem?_set_self hbound]
    rfl
  next h =>
    rw [List.getElem?_set_ne h]
    rfl

/-- A change of one worker that does not touch what it is at work on. -/
theorem metricAt_set_same {f g : FanOut} {i : Nat} {w w' : Worker} (hw : f.workers[i]? = some w)
    (hset : g.workers = f.workers.set i w') (hsame : w'.metric? = w.metric?) (j : Nat) :
    g.metricAt j = f.metricAt j := by
  rw [metricAt_set hw hset]
  split
  next h =>
    subst h
    rw [hsame, metricAt, hw]
    rfl
  next => rfl

theorem trials_append {retries : Nat} {f g : FanOut} {moves : List FanOutMove}
    (h : f.run? retries moves = some g) (more : List FanOutMove) :
    f.trials retries (moves ++ more) = f.trials retries moves ++ g.trials retries more := by
  induction moves generalizing f with
  | nil =>
    obtain rfl := Option.some.inj h
    rfl
  | cons m moves ih =>
    obtain ⟨f₁, hstep, hrest⟩ := Option.bind_eq_some_iff.mp h
    simp only [List.cons_append, trials, hstep, Option.getD_some, ih hrest, List.append_assoc]

theorem run?_append {retries : Nat} {f g k : FanOut} {moves : List FanOutMove} {m : FanOutMove}
    (h : f.run? retries moves = some g) (hstep : g.step? retries m = some k) :
    f.run? retries (moves ++ [m]) = some k := by
  rw [run?] at h
  rw [run?, List.foldlM_append, h]
  exact (bind_pure _).trans hstep

end FanOut

namespace CrewRuns

open FanOut

variable {σ : Type} {sender : Sender σ} {retries : Nat}

/-! ## 1. The pieces of a crew -/

theorem insertDue_perm (d : Due) (l : List Due) : (Crew.insertDue d l).Perm (d :: l) := by
  induction l with
  | nil => exact .refl _
  | cons e l ih =>
    rw [Crew.insertDue]
    split
    · exact (ih.cons e).trans (.swap d e l)
    · exact .refl _

/-- A move is prompt if it does not end an attempt. -/
def IsPrompt (m : FanOutMove) : Prop := ∀ i outcome, m ≠ .attempt i outcome

theorem isPrompt_of_mem {f : FanOut} {m : FanOutMove} (h : m ∈ Crew.promptMoves f) :
    IsPrompt m := by
  rintro i outcome rfl
  simp [Crew.promptMoves] at h

theorem step?_of_promptMove? {f g : FanOut} {m : FanOutMove}
    (h : Crew.promptMove? retries f = some (m, g)) : IsPrompt m ∧ f.step? retries m = some g := by
  obtain ⟨m', hmem, hmap⟩ := List.exists_of_findSome?_eq_some h
  obtain ⟨g', hstep, heq⟩ := Option.map_eq_some_iff.mp hmap
  obtain ⟨rfl, rfl⟩ := Prod.mk.inj heq
  exact ⟨isPrompt_of_mem hmem, hstep⟩

/-- Where no prompt move was found, none can be made. -/
theorem eq_none_of_promptMove? {f : FanOut} (h : Crew.promptMove? retries f = none)
    {m : FanOutMove} (hprompt : IsPrompt m) : f.step? retries m = none := by
  have hnone : ∀ m ∈ Crew.promptMoves f, f.step? retries m = none := by
    intro m hm
    exact Option.map_eq_none_iff.mp (List.findSome?_eq_none_iff.mp h m hm)
  cases hstep : f.step? retries m with
  | none => rfl
  | some g =>
    have hmem : m ∈ Crew.promptMoves f := by
      have hbound : ∀ {i : Nat} {w : Worker}, f.workers[i]? = some w → i < f.workers.length :=
        fun hw => (List.getElem?_eq_some_iff.mp hw).1
      cases step_of_step? hstep with
      | offer _ _ => simp [Crew.promptMoves]
      | close _ _ => simp [Crew.promptMoves]
      | take hw _ => simp [Crew.promptMoves, hbound hw]
      | attempt outcome _ => exact absurd rfl (hprompt _ outcome)
      | retire hw _ _ => simp [Crew.promptMoves, hbound hw]
      | gather _ hw => simp [Crew.promptMoves, hbound hw]
      | gatherLost _ hw => simp [Crew.promptMoves, hbound hw]
    rw [hnone m hmem] at hstep
    cases hstep

/-- A worker that tries again opens no way for the others. -/
theorem promptMove?_of_working {f g : FanOut} {i : Nat} {outcome : Attempt} {r : DispatchReport}
    {u : Update} {tried : Nat} (h : Crew.promptMove? retries f = none)
    (hattempt : f.step? retries (.attempt i outcome) = some g)
    (hi : g.workers[i]? = some (.sending r u tried)) : Crew.promptMove? retries g = none := by
  cases step_of_step? hattempt with
  | @attempt i r' u' tried' outcome hw =>
    let k := f.setWorker i (Worker.afterAttempt retries outcome r' u' tried')
    -- a worker that is not sending stands where it stood
    have hold : ∀ {j : Nat} {w : Worker},
        k.workers[j]? = some w → w.metric? = none → f.workers[j]? = some w := by
      intro j w hj hnone
      by_cases hij : i = j
      · subst hij
        obtain rfl := Option.some.inj (hi.symm.trans hj)
        cases hnone
      · exact (List.getElem?_set_ne hij).symm.trans hj
    cases hprompt : Crew.promptMove? retries k with
    | none => rfl
    | some mk' =>
      obtain ⟨m, k'⟩ := mk'
      obtain ⟨hm, hstep⟩ := step?_of_promptMove? hprompt
      have hnone := eq_none_of_promptMove? h hm
      have hsome : ∃ g', f.step? retries m = some g' := by
        cases step_of_step? hstep with
        | offer hwaiting hroom => exact ⟨_, step?_of_step (.offer hwaiting hroom)⟩
        | close hwaiting hopen => exact ⟨_, step?_of_step (.close hwaiting hopen)⟩
        | take hj hqueue => exact ⟨_, step?_of_step (.take (hold hj rfl) hqueue)⟩
        | attempt outcome _ => exact absurd rfl (hm _ outcome)
        | retire hj hqueue hclosed =>
          exact ⟨_, step?_of_step (.retire (hold hj rfl) hqueue hclosed)⟩
        | gather hclosed hj => exact ⟨_, step?_of_step (.gather hclosed (hold hj rfl))⟩
        | gatherLost hclosed hj => exact ⟨_, step?_of_step (.gatherLost hclosed (hold hj rfl))⟩
      obtain ⟨g', hg'⟩ := hsome
      rw [hnone] at hg'
      cases hg'

/-! ## 2. How a crew goes on -/

/-- The attempt that a due event ends. -/
def dueTrial? (f : FanOut) (d : Due) : Option Trial :=
  match d.event with
  | .begin => none
  | .finish outcome => (f.metricAt d.worker).map (⟨false, [·], outcome⟩)

/-- Where a crew has come to from a fan-out and the calls made before it. -/
structure Follows (sender : Sender σ) (retries : Nat) (start : FanOut) (before : List SendCall)
    (moves : List FanOutMove) (fan : FanOut) (due : List Due) (calls : List SendCall) : Prop where
  run : start.run? retries moves = some fan
  work : ∀ i, i ∈ due.map Due.worker ↔ (fan.metricAt i).isSome = true
  alone : (due.map Due.worker).Nodup
  calls : ∃ new, calls = before ++ new ∧
    (new.map SendCall.toTrial).Perm
      (start.trials retries moves ++ due.filterMap (dueTrial? fan)) ∧
    (sender.NeverCrashes → ∀ call ∈ new, call.outcome ≠ .crashed)

variable {start f g : FanOut} {before calls : List SendCall} {moves : List FanOutMove}
  {due due' : List Due}

theorem Follows.begins (h : ∀ i, start.metricAt i = none) :
    Follows sender retries start before [] start [] before where
  run := rfl
  work := by
    intro i
    simp [h i]
  alone := List.nodup_nil
  calls := ⟨[], (List.append_nil _).symm, .refl _, fun _ _ hmem => absurd hmem List.not_mem_nil⟩

theorem Follows.perm (h : Follows sender retries start before moves f due calls)
    (hperm : due.Perm due') : Follows sender retries start before moves f due' calls where
  run := h.run
  work := by
    intro i
    rw [← h.work i, (hperm.map Due.worker).mem_iff]
  alone := (hperm.map Due.worker).nodup_iff.mp h.alone
  calls := by
    obtain ⟨new, hnew, htrials, hsafe⟩ := h.calls
    exact ⟨new, hnew, htrials.trans ((hperm.filterMap _).append_left _), hsafe⟩

/-- Nothing changes for the workers whose events are due. -/
theorem filterMap_dueTrial? (h : ∀ d ∈ due, g.metricAt d.worker = f.metricAt d.worker) :
    due.filterMap (dueTrial? g) = due.filterMap (dueTrial? f) := by
  refine List.filterMap_congr fun d hd => ?_
  rw [dueTrial?, dueTrial?, h d hd]

/-- A move that begins and ends no work. -/
theorem Follows.quiet (h : Follows sender retries start before moves f due calls)
    {m : FanOutMove} (hstep : f.step? retries m = some g) (hnone : f.trial? m = none)
    (hsame : ∀ i, g.metricAt i = f.metricAt i) :
    Follows sender retries start before (moves ++ [m]) g due calls where
  run := run?_append h.run hstep
  work := by
    intro i
    rw [hsame]
    exact h.work i
  alone := h.alone
  calls := by
    have htrials : start.trials retries (moves ++ [m]) = start.trials retries moves := by
      rw [trials_append h.run, trials, hnone]
      exact List.append_nil _
    rw [htrials, filterMap_dueTrial? fun d _ => hsame d.worker]
    exact h.calls

/-- A move of one worker. The events that were due for it are `gone`, and `again` are due now. -/
theorem Follows.move {i : Nat} {m : FanOutMove} (gone again : List Due)
    (h : Follows sender retries start before moves f (gone ++ due) calls)
    (hstep : f.step? retries m = some g) (hothers : ∀ j, i ≠ j → g.metricAt j = f.metricAt j)
    (hgone : ∀ d ∈ gone, d.worker = i) (hfree : i ∉ due.map Due.worker)
    (hended : gone.filterMap (dueTrial? f) = (f.trial? m).toList)
    (hagain : again.map Due.worker = if (g.metricAt i).isSome then [i] else [])
    (hbegin : again.filterMap (dueTrial? g) = []) :
    Follows sender retries start before (moves ++ [m]) g (again ++ due) calls where
  run := run?_append h.run hstep
  work := by
    intro j
    rw [List.map_append, List.mem_append, hagain]
    by_cases hij : i = j
    · subst hij
      cases g.metricAt i with
      | none => simp [hfree]
      | some u => simp
    · have hnot : j ∉ gone.map Due.worker := by
        intro hmem
        obtain ⟨d, hd, rfl⟩ := List.mem_map.mp hmem
        exact hij (hgone d hd).symm
      have hwork := h.work j
      rw [List.map_append, List.mem_append, or_iff_right hnot] at hwork
      rw [hothers j hij, ← hwork]
      refine or_iff_right fun hmem => ?_
      split at hmem
      · exact hij (List.mem_singleton.mp hmem).symm
      · cases hmem
  alone := by
    have hrest := h.alone
    rw [List.map_append] at hrest
    rw [List.map_append, hagain]
    split
    · exact List.nodup_cons.mpr ⟨hfree, (List.nodup_append.mp hrest).2.1⟩
    · exact (List.nodup_append.mp hrest).2.1
  calls := by
    have hsame : due.filterMap (dueTrial? g) = due.filterMap (dueTrial? f) := by
      refine filterMap_dueTrial? fun d hd => hothers d.worker ?_
      rintro rfl
      exact hfree (List.mem_map_of_mem hd)
    have htrials : start.trials retries (moves ++ [m]) =
        start.trials retries moves ++ (f.trial? m).toList := by
      rw [trials_append h.run, trials, trials, List.append_nil]
    have hcalls := h.calls
    rw [List.filterMap_append, hended, ← List.append_assoc] at hcalls
    rw [htrials, List.filterMap_append, hbegin, hsame]
    exact hcalls

/-- A worker takes a metric and is to begin with it. -/
theorem Follows.take {i : Nat} (h : Follows sender retries start before moves f due calls)
    (hstep : f.step? retries (.take i) = some g) (time : Nat) :
    Follows sender retries start before (moves ++ [.take i]) g (⟨time, i, .begin⟩ :: due) calls := by
  have hcopy := hstep
  cases step_of_step? hstep with
  | @take i r m more hworker hqueue =>
    have hat := metricAt_set (g := setWorker { f with queue := more } i (.sending r m 0))
      hworker rfl
    have hidle : f.metricAt i = none := by
      rw [metricAt, hworker]
      rfl
    have hfree : i ∉ due.map Due.worker := by
      rw [h.work i, hidle]
      exact Bool.noConfusion
    refine Follows.move [] [⟨time, i, .begin⟩] h hcopy (fun j hij => ?_)
      (fun d hd => absurd hd List.not_mem_nil) hfree rfl ?_ rfl
    · rw [hat, if_neg hij]
    · rw [hat, if_pos rfl]
      rfl

/-- A worker begins an attempt. -/
theorem Follows.begin {time i : Nat}
    (h : Follows sender retries start before moves f (⟨time, i, .begin⟩ :: due) calls)
    {m : Update} (hwork : f.metricAt i = some m) (call : SendCall)
    (hcall : call.isBatch = false ∧ call.metrics = [m])
    (hsafe : sender.NeverCrashes → call.outcome ≠ .crashed) (later : Nat) :
    Follows sender retries start before moves f (⟨later, i, .finish call.outcome⟩ :: due)
      (calls ++ [call]) where
  run := h.run
  work := h.work
  alone := h.alone
  calls := by
    obtain ⟨new, rfl, htrials, hnew⟩ := h.calls
    have htrial : dueTrial? f ⟨later, i, .finish call.outcome⟩ = some call.toTrial := by
      obtain ⟨⟨isBatch, metrics, outcome⟩, start⟩ := call
      obtain ⟨rfl, rfl⟩ := hcall
      rw [dueTrial?, hwork]
      rfl
    refine ⟨new ++ [call], List.append_assoc .., ?_, ?_⟩
    · rw [List.filterMap_cons_none rfl] at htrials
      rw [List.map_append, List.filterMap_cons_some htrial]
      calc (new.map SendCall.toTrial ++ [call.toTrial]).Perm
            (start.trials retries moves ++ due.filterMap (dueTrial? f) ++ [call.toTrial]) :=
          htrials.append_right _
        List.Perm _ (start.trials retries moves ++
            (call.toTrial :: due.filterMap (dueTrial? f))) := by
          rw [List.append_assoc]
          exact (List.perm_append_singleton _ _).append_left _
    · intro hnever
      rw [List.forall_mem_append]
      exact ⟨hnew hnever, List.forall_mem_singleton.mpr (hsafe hnever)⟩

/-- A worker ends an attempt, and is to begin again if it is still at work. -/
theorem Follows.finish {time i : Nat} {outcome : Attempt} (again : List Due)
    (h : Follows sender retries start before moves f (⟨time, i, .finish outcome⟩ :: due) calls)
    (hstep : f.step? retries (.attempt i outcome) = some g)
    (hagain : again.map Due.worker = if (g.metricAt i).isSome then [i] else [])
    (hbegin : ∀ d ∈ again, d.event = .begin) :
    Follows sender retries start before (moves ++ [.attempt i outcome]) g (again ++ due) calls := by
  have hcopy := hstep
  cases step_of_step? hstep with
  | @attempt i r m tried outcome hworker =>
    have hat := metricAt_set (g := f.setWorker i (Worker.afterAttempt retries outcome r m tried))
      hworker rfl
    have hwork : f.metricAt i = some m := by
      rw [metricAt, hworker]
      rfl
    have hnone : again.filterMap (dueTrial?
        (f.setWorker i (Worker.afterAttempt retries outcome r m tried))) = [] := by
      refine List.filterMap_eq_nil_iff.mpr fun d hd => ?_
      rw [dueTrial?, hbegin d hd]
    refine Follows.move [⟨time, i, .finish outcome⟩] again h hcopy (fun j hij => ?_) (fun d hd => ?_)
      (List.nodup_cons.mp h.alone).1 ?_ hagain hnone
    · rw [hat, if_neg hij]
    · rw [List.mem_singleton.mp hd]
    · have htrial : dueTrial? f ⟨time, i, .finish outcome⟩ = f.trial? (.attempt i outcome) := rfl
      rw [List.filterMap_cons, htrial, trial?, hworker]
      rfl

/-- A prompt move after which no worker is at work that was not. -/
theorem Follows.prompt (h : Follows sender retries start before moves f due calls)
    {m : FanOutMove} (hstep : f.step? retries m = some g) (hprompt : IsPrompt m)
    (hidle : ∀ i, m ≠ .take i) :
    Follows sender retries start before (moves ++ [m]) g due calls := by
  have hcopy := hstep
  cases step_of_step? hstep with
  | offer _ _ => exact h.quiet hcopy rfl fun _ => rfl
  | close _ _ => exact h.quiet hcopy rfl fun _ => rfl
  | take _ _ => exact absurd rfl (hidle _)
  | attempt outcome _ => exact absurd rfl (hprompt _ outcome)
  | retire hw _ _ => exact h.quiet hcopy rfl (metricAt_set_same hw rfl rfl)
  | gather _ hw => exact h.quiet hcopy rfl (metricAt_set_same hw rfl rfl)
  | gatherLost _ hw => exact h.quiet hcopy rfl (metricAt_set_same hw rfl rfl)

/-! ## 3. Events -/

/-- A crew that has come somewhere by some moves. -/
def Leads (sender : Sender σ) (retries : Nat) (start : FanOut) (before : List SendCall)
    (moves : List FanOutMove) (c : Crew σ) : Prop :=
  Follows sender retries start before moves c.fan c.due c.outbox.calls

/-- How many events can still be handled. -/
def eventsLeft (retries : Nat) (c : Crew σ) : Nat :=
  2 * c.fan.movesLeft retries + c.due.countP (·.event = .begin)

variable {c : Crew σ}

theorem countP_insertDue (d : Due) (l : List Due) :
    (Crew.insertDue d l).countP (·.event = .begin) =
      l.countP (·.event = .begin) + if d.event = .begin then 1 else 0 := by
  rw [(insertDue_perm d l).countP_eq, List.countP_cons]
  simp only [decide_eq_true_eq]

/-- A settled crew can make no prompt move. -/
theorem Leads.settle (h : Leads sender retries start before moves c) (limit : Nat) :
    ∃ more, Leads sender retries start before (moves ++ more) (c.settle retries limit) ∧
      eventsLeft retries (c.settle retries limit) ≤ eventsLeft retries c ∧
      (c.fan.movesLeft retries ≤ limit →
        Crew.promptMove? retries (c.settle retries limit).fan = none) := by
  induction limit generalizing c moves with
  | zero =>
    refine ⟨[], by rwa [List.append_nil], Nat.le_refl _, fun hnone => ?_⟩
    cases hprompt : Crew.promptMove? retries c.fan with
    | none => exact hprompt
    | some mg =>
      have hless := movesLeft_step (step?_of_promptMove? hprompt).2
      exact absurd (Nat.lt_of_lt_of_le hless hnone) (Nat.not_lt_zero _)
  | succ limit ih =>
    cases hprompt : Crew.promptMove? retries c.fan with
    | none =>
      rw [Crew.settle, hprompt]
      exact ⟨[], by rwa [List.append_nil], Nat.le_refl _, fun _ => hprompt⟩
    | some mg =>
      obtain ⟨m, g⟩ := mg
      obtain ⟨hm, hstep⟩ := step?_of_promptMove? hprompt
      have hless := movesLeft_step hstep
      -- one move, and the rest from there
      have hone : ∃ c', Crew.settle retries (limit + 1) c = Crew.settle retries limit c' ∧
          c'.fan = g ∧ Leads sender retries start before (moves ++ [m]) c' ∧
          eventsLeft retries c' ≤ eventsLeft retries c := by
        by_cases htake : ∃ i, m = .take i
        · obtain ⟨i, rfl⟩ := htake
          refine ⟨{ c with fan := g }.plan 0 i .begin, by rw [Crew.settle, hprompt], rfl, ?_, ?_⟩
          · exact (Follows.take h hstep _).perm (insertDue_perm _ _).symm
          · simp only [eventsLeft, Crew.plan, countP_insertDue, if_true]
            omega
        · have hidle : ∀ i, m ≠ .take i := fun i hi => htake ⟨i, hi⟩
          refine ⟨{ c with fan := g }, ?_, rfl, Follows.prompt h hstep hm hidle, ?_⟩
          · rw [Crew.settle, hprompt]
            cases m with
            | take i => exact absurd rfl (hidle i)
            | _ => rfl
          · simp only [eventsLeft]
            omega
      obtain ⟨c', heq, hfan, hleads, hleft⟩ := hone
      obtain ⟨more, hmore, hmoreLeft, hsettled⟩ := ih hleads
      refine ⟨m :: more, ?_, ?_, fun hlimit => ?_⟩
      · rw [heq, ← List.singleton_append, ← List.append_assoc]
        exact hmore
      · rw [heq]
        exact Nat.le_trans hmoreLeft hleft
      · rw [heq]
        exact hsettled (by rw [hfan]; omega)

theorem sending_of_metricAt {i : Nat} (h : (f.metricAt i).isSome = true) :
    ∃ r m tried, f.workers[i]? = some (.sending r m tried) := by
  rw [metricAt] at h
  cases hw : f.workers[i]? with
  | none => simp [hw] at h
  | some w =>
    cases w with
    | sending r m tried => exact ⟨r, m, tried, rfl⟩
    | _ => simp [hw, Worker.metric?] at h

theorem finishAttempt_of_working {waits : List Nat} {i : Nat} {outcome : Attempt}
    {r : DispatchReport} {m : Update} {tried : Nat}
    (hstep : c.fan.step? waits.length (.attempt i outcome) = some g)
    (hi : g.workers[i]? = some (.sending r m tried)) :
    c.finishAttempt waits i outcome =
      { c with fan := g }.plan (waits.getD (tried - 1) 0) i .begin := by
  simp only [Crew.finishAttempt, hstep, hi]

theorem finishAttempt_of_idle {waits : List Nat} {i : Nat} {outcome : Attempt}
    (hstep : c.fan.step? waits.length (.attempt i outcome) = some g) (hi : g.metricAt i = none) :
    c.finishAttempt waits i outcome = { c with fan := g }.settleAll waits.length := by
  simp only [Crew.finishAttempt, hstep]
  cases hw : g.workers[i]? with
  | none => rfl
  | some w =>
    cases w with
    | sending r m tried =>
      rw [metricAt, hw] at hi
      cases hi
    | _ => rfl

/-- A worker ends an attempt: it is to begin again, or the crew settles. -/
theorem Leads.finish {waits : List Nat} {time i : Nat} {outcome : Attempt}
    (h : Leads sender waits.length start before moves
      { c with due := ⟨time, i, .finish outcome⟩ :: c.due })
    (hstep : c.fan.step? waits.length (.attempt i outcome) = some g)
    (hsettled : Crew.promptMove? waits.length c.fan = none) :
    ∃ more, Leads sender waits.length start before (moves ++ more)
        (c.finishAttempt waits i outcome) ∧
      eventsLeft waits.length (c.finishAttempt waits i outcome) <
        eventsLeft waits.length { c with due := ⟨time, i, .finish outcome⟩ :: c.due } ∧
      Crew.promptMove? waits.length (c.finishAttempt waits i outcome).fan = none := by
  have hless := movesLeft_step hstep
  cases hmetric : g.metricAt i with
  | some u =>
    obtain ⟨r, m, tried, hi⟩ := sending_of_metricAt (f := g) (by rw [hmetric]; rfl)
    rw [finishAttempt_of_working hstep hi]
    refine ⟨[.attempt i outcome], ?_, ?_, ?_⟩
    · let later := c.outbox.now + waits.getD (tried - 1) 0
      have hagain := Follows.finish [⟨later, i, .begin⟩] h hstep (by rw [hmetric]; rfl)
        (fun d hd => by rw [List.mem_singleton.mp hd])
      exact hagain.perm (insertDue_perm _ _).symm
    · simp [eventsLeft, Crew.plan, countP_insertDue]
      omega
    · exact promptMove?_of_working hsettled hstep hi
  | none =>
    rw [finishAttempt_of_idle hstep hmetric]
    have hrest := Follows.finish [] h hstep (by rw [hmetric]; rfl)
      (fun d hd => absurd hd List.not_mem_nil)
    obtain ⟨more, hmore, hleft, hprompt⟩ :=
      Leads.settle (c := { c with fan := g }) hrest (g.movesLeft waits.length)
    refine ⟨.attempt i outcome :: more, ?_, ?_, hprompt (Nat.le_refl _)⟩
    · rw [← List.singleton_append, ← List.append_assoc]
      exact hmore
    · refine Nat.lt_of_le_of_lt hleft ?_
      simp [eventsLeft]
      omega

/-- A crew handles the event that was first in its list. -/
theorem Leads.handle {waits : List Nat} {d : Due}
    (h : Leads sender waits.length start before moves { c with due := d :: c.due })
    (hsettled : Crew.promptMove? waits.length c.fan = none) :
    ∃ more, Leads sender waits.length start before (moves ++ more) (c.handle sender waits d) ∧
      eventsLeft waits.length (c.handle sender waits d) <
        eventsLeft waits.length { c with due := d :: c.due } ∧
      Crew.promptMove? waits.length (c.handle sender waits d).fan = none := by
  obtain ⟨time, i, event⟩ := d
  have hwork : (c.fan.metricAt i).isSome = true := (Follows.work h i).mp List.mem_cons_self
  obtain ⟨r, m, tried, hi⟩ := sending_of_metricAt hwork
  have hm : c.fan.metricAt i = some m := by
    rw [metricAt, hi]
    rfl
  cases event with
  | begin =>
    let answer := sender.one m c.outbox.sender
    let call : SendCall := ⟨⟨false, [m], answer.1.1⟩, time⟩
    have hhandle : c.handle sender waits ⟨time, i, .begin⟩ =
        Crew.plan { c with outbox := ⟨time, answer.2, c.outbox.calls ++ [call]⟩ } answer.1.2 i
          (.finish answer.1.1) := by
      simp only [Crew.handle, Crew.beginAttempt, hi]
      rfl
    refine ⟨[], ?_, ?_, ?_⟩
    · rw [hhandle, List.append_nil]
      have hbegun := Follows.begin h hm call ⟨rfl, rfl⟩ (fun hnever => hnever.one m _)
        (time + answer.1.2)
      exact hbegun.perm (insertDue_perm _ _).symm
    · rw [hhandle]
      simp [eventsLeft, Crew.plan, countP_insertDue]
    · rw [hhandle]
      exact hsettled
  | finish outcome =>
    exact Leads.finish (c := { c with outbox := { c.outbox with now := time } }) h
      (step?_of_step (.attempt outcome hi)) hsettled

/-- A settled crew handles events until none is due. -/
theorem Leads.run {waits : List Nat} (h : Leads sender waits.length start before moves c)
    (hsettled : Crew.promptMove? waits.length c.fan = none) (limit : Nat)
    (hlimit : eventsLeft waits.length c ≤ limit) :
    ∃ more, Leads sender waits.length start before (moves ++ more) (c.run sender waits limit) ∧
      (c.run sender waits limit).due = [] ∧
      Crew.promptMove? waits.length (c.run sender waits limit).fan = none := by
  induction limit generalizing c moves with
  | zero =>
    refine ⟨[], by rwa [List.append_nil], ?_, hsettled⟩
    cases hdue : c.due with
    | nil => exact hdue
    | cons d due =>
      have hwork := (Follows.work h d.worker).mp (by rw [hdue]; exact List.mem_cons_self)
      obtain ⟨r, m, tried, hi⟩ := sending_of_metricAt hwork
      have hattempt : c.fan.Step waits.length (.attempt d.worker .accepted) _ :=
        .attempt .accepted hi
      have hless := movesLeft_step (step?_of_step hattempt)
      rw [eventsLeft] at hlimit
      omega
  | succ limit ih =>
    cases hdue : c.due with
    | nil =>
      rw [Crew.run, hdue]
      exact ⟨[], by rwa [List.append_nil], hdue, hsettled⟩
    | cons d due =>
      have hsame : { c with due := d :: due } = c := by rw [← hdue]
      obtain ⟨more, hmore, hless, hnext⟩ := Leads.handle (c := { c with due := due }) (d := d)
        (hsame.symm ▸ h) hsettled
      obtain ⟨rest, hrest⟩ := ih hmore hnext (by rw [hsame] at hless; omega)
      refine ⟨more ++ rest, ?_⟩
      rw [Crew.run, hdue, ← List.append_assoc]
      exact hrest

/-! ## 4. A fan-out in time -/

end CrewRuns
end Metering
