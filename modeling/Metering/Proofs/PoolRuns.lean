import Metering.Ingest.Pool
import Metering.Proofs.LedgerHistory

/-!
Courses of events in a pool of tasks over one ledger.

A course of events is a list of moves, and a point in time is the number of moves before it. What
happens at a point is said of the pool at that point: `EventAt` is a call that the ledger answers,
`LandsAt` a write of the file that lands. So "read no earlier than written" is an inequality of
two numbers, and nothing has to be carried along when more moves follow.

Results:
1. `moved`, `taskStep_step`: what a move can do to a pool, and what it can do to one task.
2. `foldlM_written`: the ledger at a point is the fold of what was accepted before that point.
3. `store_of_quiet`, `gauges_of_counters_only`, `counters_of_gauges_only`: what the ledger keeps
   between two points, by what was accepted between them.
-/
namespace Metering

namespace ServerPool

variable {α : Type}

/-- The call with which a task goes on, with the answer that it would get now. -/
def event? (pool : ServerPool α Ledger) (k : Nat) : Option StoreEvent :=
  match pool.tasks[k]? with
  | some (.running (.step (.store c) _)) =>
    some ⟨c, (Ledger.store.call c pool.state.store).1⟩
  | _ => none

/-- The updates that the ledger accepts in a move. -/
def accepts (pool : ServerPool α Ledger) : PoolMove α → List Update
  | .turn k => ((pool.event? k).bind StoreEvent.accepted?).elim [] StoreCall.writes
  | _ => []

/-- The updates that the ledger accepts in a course of events, in order. -/
def written (pool : ServerPool α Ledger) : List (PoolMove α) → List Update
  | [] => []
  | m :: moves => pool.accepts m ++ written (pool.step Ledger.store m) moves

/-- The pool at a point of a course of events. -/
def before (start : ServerPool α Ledger) (moves : List (PoolMove α)) (n : Nat) :
    ServerPool α Ledger :=
  start.run Ledger.store (moves.take n)

/-- The ledger at a point of a course of events. -/
def ledgerAt (start : ServerPool α Ledger) (moves : List (PoolMove α)) (n : Nat) : Ledger :=
  (start.before moves n).state.store

/-- The updates that the ledger accepts between two points, in order. -/
def writtenBetween (start : ServerPool α Ledger) (moves : List (PoolMove α)) (m n : Nat) :
    List Update :=
  (start.before moves m).written ((moves.take n).drop m)

/-- At a point, the ledger answers a call of a task. -/
def EventAt (start : ServerPool α Ledger) (moves : List (PoolMove α)) (n k : Nat)
    (e : StoreEvent) : Prop :=
  moves[n]? = some (.turn k) ∧ (start.before moves n).event? k = some e

/-- At a point, the ledger accepts a write of a task. -/
def WritesAt (start : ServerPool α Ledger) (moves : List (PoolMove α)) (n k : Nat) : Prop :=
  ∃ e, start.EventAt moves n k e ∧ e.accepted?.isSome = true

/-- At a point, a write of the file lands. -/
def LandsAt (start : ServerPool α Ledger) (moves : List (PoolMove α)) (n : Nat)
    (w : FileWrite) : Prop :=
  ∃ i, moves[n]? = some (.land i) ∧ (start.before moves n).writes[i]? = some w

/-- At a point, a task is started. -/
def StartsAt (start : ServerPool α Ledger) (moves : List (PoolMove α)) (n k : Nat)
    (task : ServerTask α) : Prop :=
  moves[n]? = some (.start task) ∧ (start.before moves n).tasks.length = k

/-! ## 1. One move -/

section
variable {pool : ServerPool α Ledger} {k : Nat}

theorem turn_store {c : StoreCall β} {next : Except StoreFault β → ServerTask α}
    (h : pool.tasks[k]? = some (.running (.step (.store c) next))) :
    pool.turn Ledger.store k =
      { pool.setTask k (.running (next (Ledger.store.call c pool.state.store).1)) with
        state := { pool.state with store := (Ledger.store.call c pool.state.store).2 } } := by
  rw [turn, h]
  rfl

theorem turn_beginSave {next : Unit → ServerTask α}
    (h : pool.tasks[k]? = some (.running (.step .beginSave next))) :
    pool.turn Ledger.store k =
      if pool.holder.isNone then { pool.setTask k (.running (next ())) with holder := some k }
      else pool := by
  rw [turn, h]
  rfl

theorem turn_endSave {next : Unit → ServerTask α}
    (h : pool.tasks[k]? = some (.running (.step .endSave next))) :
    pool.turn Ledger.store k = { pool.setTask k (.running (next ())) with holder := none } := by
  rw [turn, h]
  rfl

theorem turn_replaceFile {file : SnapshotFile} {ms : List Metric}
    {next : Except StoreFault Unit → ServerTask α}
    (h : pool.tasks[k]? = some (.running (.step (.replaceFile file ms) next))) :
    pool.turn Ledger.store k =
      if pool.writes.any fun w => w.owner == k then pool
      else { pool with writes := pool.writes ++ [⟨k, file, ms⟩] } := by
  rw [turn, h]
  rfl

theorem turn_publish {ids : List String} {source : String} {next : Unit → ServerTask α}
    (h : pool.tasks[k]? = some (.running (.step (.publish ids source) next))) :
    pool.turn Ledger.store k =
      { pool.setTask k (.running (next ())) with
        state := { pool.state with
          inboxes := pool.state.inboxes.publish ⟨pool.state.time, ids, source⟩ } } := by
  rw [turn, h]
  rfl

theorem turn_of_done {a : α} (h : pool.tasks[k]? = some (.running (.done a))) :
    pool.turn Ledger.store k = pool := by
  rw [turn, h]

theorem event?_of_store {c : StoreCall β} {next : Except StoreFault β → ServerTask α}
    (h : pool.tasks[k]? = some (.running (.step (.store c) next))) :
    pool.event? k = some ⟨c, (Ledger.store.call c pool.state.store).1⟩ := by
  rw [event?, h]

/-- What a turn can be: nothing, or the step that the task is about to take. -/
inductive Turn (pool : ServerPool α Ledger) (k : Nat) : ServerPool α Ledger → Prop
  | idle : pool.event? k = none → Turn pool k pool
  | call {c : StoreCall β} {next : Except StoreFault β → ServerTask α} :
      pool.tasks[k]? = some (.running (.step (.store c) next)) →
      Turn pool k { pool.setTask k (.running (next (Ledger.store.call c pool.state.store).1)) with
        state := { pool.state with store := (Ledger.store.call c pool.state.store).2 } }
  | enter {next : Unit → ServerTask α} :
      pool.tasks[k]? = some (.running (.step .beginSave next)) → pool.holder = none →
      Turn pool k { pool.setTask k (.running (next ())) with holder := some k }
  | hand {file : SnapshotFile} {ms : List Metric} {next : Except StoreFault Unit → ServerTask α} :
      pool.tasks[k]? = some (.running (.step (.replaceFile file ms) next)) →
      (∀ w ∈ pool.writes, w.owner ≠ k) →
      Turn pool k { pool with writes := pool.writes ++ [⟨k, file, ms⟩] }
  | leave {next : Unit → ServerTask α} :
      pool.tasks[k]? = some (.running (.step .endSave next)) →
      Turn pool k { pool.setTask k (.running (next ())) with holder := none }
  | publish {ids : List String} {source : String} {next : Unit → ServerTask α} :
      pool.tasks[k]? = some (.running (.step (.publish ids source) next)) →
      Turn pool k { pool.setTask k (.running (next ())) with
        state := { pool.state with
          inboxes := pool.state.inboxes.publish ⟨pool.state.time, ids, source⟩ } }

theorem turn_cases (pool : ServerPool α Ledger) (k : Nat) :
    Turn pool k (pool.turn Ledger.store k) := by
  cases h : pool.tasks[k]? with
  | none =>
    rw [turn, h]
    exact .idle (by rw [event?, h])
  | some t =>
    cases t with
    | cancelled =>
      rw [turn, h]
      exact .idle (by rw [event?, h])
    | running t =>
      cases t with
      | done a =>
        rw [turn_of_done h]
        exact .idle (by rw [event?, h])
      | step st next =>
        cases st with
        | store c =>
          rw [turn_store h]
          exact .call h
        | beginSave =>
          rw [turn_beginSave h]
          split
          next hfree => exact .enter h (Option.isNone_iff_eq_none.mp hfree)
          next => exact .idle (by rw [event?, h])
        | replaceFile file ms =>
          rw [turn_replaceFile h]
          split
          next => exact .idle (by rw [event?, h])
          next hnone =>
            refine .hand h fun w hw hk => hnone ?_
            exact List.any_eq_true.mpr ⟨w, hw, beq_iff_eq.mpr hk⟩
        | endSave =>
          rw [turn_endSave h]
          exact .leave h
        | publish ids source =>
          rw [turn_publish h]
          exact .publish h

/-- The disk after a write has landed. -/
theorem land_eq {i : Nat} {w : FileWrite} (h : pool.writes[i]? = some w) :
    pool.land Ledger.store i =
      { pool with
        state := ((ServerStep.replaceFile w.file w.metrics).take Ledger.store pool.state).2
        writes := pool.writes.eraseIdx i }.resume w.owner
          ((ServerStep.replaceFile w.file w.metrics).take Ledger.store pool.state).1 := by
  rw [land, h]

theorem fail_eq {i : Nat} {w : FileWrite} (h : pool.writes[i]? = some w) (fault : StoreFault) :
    pool.fail i fault =
      { pool with writes := pool.writes.eraseIdx i }.resume w.owner (.error fault) := by
  rw [fail, h]

theorem writes_resume (pool : ServerPool α Ledger) (k : Nat) (outcome : Except StoreFault Unit) :
    (pool.resume k outcome).writes = pool.writes := by
  unfold resume
  split <;> rfl

/-- How a write ends in a move: it lands, with whatever outcome, or it fails before. -/
inductive Ends (pool : ServerPool α Ledger) (i : Nat) (w : FileWrite) :
    PoolMove α → Except StoreFault Unit → Prop
  | lands : Ends pool i w (.land i)
      ((ServerStep.replaceFile w.file w.metrics).take Ledger.store pool.state).1
  | fails (fault : StoreFault) : Ends pool i w (.fail i fault) (.error fault)

/-- What a move can be: nothing, or what it says. -/
inductive Moved (pool : ServerPool α Ledger) : PoolMove α → ServerPool α Ledger → Prop
  | nothing {m : PoolMove α} : (∀ k, m ≠ .turn k) → Moved pool m pool
  | start (task : ServerTask α) :
      Moved pool (.start task) { pool with tasks := pool.tasks ++ [.running task] }
  | turn {k : Nat} {after : ServerPool α Ledger} : Turn pool k after → Moved pool (.turn k) after
  | ending {m : PoolMove α} {i : Nat} {w : FileWrite} {s : ServerState Ledger}
      (outcome : Except StoreFault Unit) : pool.Ends i w m outcome →
      pool.writes[i]? = some w → s.store = pool.state.store →
      Moved pool m
        ({ pool with state := s, writes := pool.writes.eraseIdx i }.resume w.owner outcome)
  | cancel {k : Nat} {t : PoolTask α} : pool.tasks[k]? = some t → t.hasEnded = false →
      Moved pool (.cancel k) { pool.setTask k .cancelled with
        holder := if pool.holder = some k then none else pool.holder }

theorem moved (pool : ServerPool α Ledger) (m : PoolMove α) :
    Moved pool m (pool.step Ledger.store m) := by
  cases m with
  | start task => exact .start task
  | turn k => exact .turn (turn_cases pool k)
  | land i =>
    show Moved pool _ (pool.land Ledger.store i)
    cases hw : pool.writes[i]? with
    | none =>
      rw [land, hw]
      exact .nothing (by simp)
    | some w =>
      rw [land_eq hw]
      refine .ending _ .lands hw ?_
      simp only [ServerStep.take]
      split <;> rfl
  | fail i fault =>
    show Moved pool _ (pool.fail i fault)
    cases hw : pool.writes[i]? with
    | none =>
      rw [fail, hw]
      exact .nothing (by simp)
    | some w =>
      rw [fail_eq hw]
      exact .ending _ (.fails fault) hw rfl
  | cancel k =>
    show Moved pool _ (pool.cancel k)
    unfold cancel
    split
    next t ht =>
      split
      next => exact .nothing (by simp)
      next hrunning => exact .cancel ht (Bool.eq_false_iff.mpr hrunning)
    next => exact .nothing (by simp)

end

/-- What a move answers to the step of a task: the ledger's answer to a call, the outcome of its
write, and nothing else but that its turn has come. -/
def Answers (pool : ServerPool α Ledger) (m : PoolMove α) (k : Nat) :
    {β : Type} → ServerStep β → β → Prop
  | _, .store c, r => m = .turn k ∧ r = (Ledger.store.call c pool.state.store).1
  | _, .replaceFile _ _, r => ∃ i w, pool.writes[i]? = some w ∧ w.owner = k ∧ pool.Ends i w m r
  | _, _, _ => m = .turn k

/-- What a move does to a task: nothing, an end, or one step of the task. -/
inductive TaskStep (pool : ServerPool α Ledger) (m : PoolMove α) (k : Nat) (t : PoolTask α) :
    PoolTask α → Prop
  | same : TaskStep pool m k t t
  | cancelled : m = .cancel k → TaskStep pool m k t .cancelled
  | answered {st : ServerStep β} {next : β → ServerTask α} {r : β} :
      t = .running (.step st next) → pool.Answers m k st r →
      TaskStep pool m k t (.running (next r))

section
variable {pool : ServerPool α Ledger} {k j : Nat} {t : PoolTask α}

theorem taskStep_set {m : PoolMove α} {u : PoolTask α} (h : pool.tasks[k]? = some t)
    (hu : j = k → TaskStep pool m k t u) :
    ∃ t', (pool.tasks.set j u)[k]? = some t' ∧ TaskStep pool m k t t' := by
  have hk : k < pool.tasks.length := (List.getElem?_eq_some_iff.mp h).1
  by_cases hj : j = k
  · subst hj
    exact ⟨u, List.getElem?_set_self hk, hu rfl⟩
  · exact ⟨t, (List.getElem?_set_ne hj).trans h, .same⟩

theorem taskStep_turn {after : ServerPool α Ledger} (hturn : Turn pool j after)
    (h : pool.tasks[k]? = some t) :
    ∃ t', after.tasks[k]? = some t' ∧ TaskStep pool (.turn j) k t t' := by
  -- The task whose turn it is goes on with an answer.
  have hgoes {β : Type} {st : ServerStep β} {next : β → ServerTask α} (r : β)
      (hj : pool.tasks[j]? = some (.running (.step st next)))
      (hr : pool.Answers (.turn j) j st r) :
      ∃ t', (pool.tasks.set j (.running (next r)))[k]? = some t' ∧
        TaskStep pool (.turn j) k t t' := by
    refine taskStep_set h fun hjk => ?_
    subst hjk
    exact .answered (Option.some.inj (h.symm.trans hj)) hr
  cases hturn with
  | idle => exact ⟨t, h, .same⟩
  | call hj => exact hgoes _ hj ⟨rfl, rfl⟩
  | enter hj _ => exact hgoes () hj rfl
  | hand hj _ => exact ⟨t, h, .same⟩
  | leave hj => exact hgoes () hj rfl
  | publish hj => exact hgoes () hj rfl

theorem taskStep_resume {ended : ServerPool α Ledger} (htasks : ended.tasks = pool.tasks)
    {m : PoolMove α} {outcome : Except StoreFault Unit}
    (hr : ∀ file ms, pool.Answers m j (.replaceFile file ms) outcome)
    (h : pool.tasks[k]? = some t) :
    ∃ t', (ended.resume j outcome).tasks[k]? = some t' ∧ TaskStep pool m k t t' := by
  unfold resume
  rw [htasks]
  split
  next file ms next hj =>
    rw [setTask, htasks]
    refine taskStep_set h fun hjk => ?_
    subst hjk
    exact .answered (Option.some.inj (h.symm.trans hj)) (hr file ms)
  next => exact ⟨t, htasks ▸ h, .same⟩

/-- A task that is there is still there one move later, and it has taken one step at most. -/
theorem taskStep_step (m : PoolMove α) (h : pool.tasks[k]? = some t) :
    ∃ t', (pool.step Ledger.store m).tasks[k]? = some t' ∧ TaskStep pool m k t t' := by
  have hmoved := moved pool m
  generalize pool.step Ledger.store m = after at hmoved
  cases hmoved with
  | nothing => exact ⟨t, h, .same⟩
  | start task =>
    have hk : k < pool.tasks.length := (List.getElem?_eq_some_iff.mp h).1
    exact ⟨t, (List.getElem?_append_left hk).trans h, .same⟩
  | turn hturn => exact taskStep_turn hturn h
  | ending outcome hends hw =>
    refine taskStep_resume ?_ (fun file ms => ⟨_, _, hw, rfl, hends⟩) h
    rfl
  | cancel => exact taskStep_set h fun hjk => .cancelled (hjk ▸ rfl)

end

/-- No task is ever taken away. -/
theorem length_step_le (pool : ServerPool α Ledger) (m : PoolMove α) :
    pool.tasks.length ≤ (pool.step Ledger.store m).tasks.length := by
  by_contra hlt
  have hk : (pool.step Ledger.store m).tasks.length < pool.tasks.length := Nat.lt_of_not_le hlt
  obtain ⟨t', ht', -⟩ := taskStep_step m (List.getElem?_eq_getElem hk)
  exact absurd (List.getElem?_eq_some_iff.mp ht').1 (Nat.lt_irrefl _)

/-- Only a start adds a task. -/
theorem length_step_of_not_start (pool : ServerPool α Ledger) {m : PoolMove α}
    (h : ∀ task, m ≠ .start task) :
    (pool.step Ledger.store m).tasks.length = pool.tasks.length := by
  have hmoved := moved pool m
  generalize pool.step Ledger.store m = after at hmoved
  cases hmoved with
  | nothing => rfl
  | start task => exact absurd rfl (h task)
  | turn hturn =>
    cases hturn with
    | idle => rfl
    | hand => rfl
    | _ => exact List.length_set
  | ending outcome =>
    unfold resume
    split
    next => exact List.length_set
    next => rfl
  | cancel => exact List.length_set

/-- A task that has ended stays so. -/
theorem TaskStep.hasEnded {pool : ServerPool α Ledger} {m : PoolMove α} {k : Nat}
    {t t' : PoolTask α} (h : TaskStep pool m k t t') (hended : t.hasEnded = true) : t'.hasEnded = true := by
  cases h with
  | same => exact hended
  | cancelled => rfl
  | answered htask =>
    subst htask
    cases hended

/-- A task that has ended asks for nothing. -/
theorem event?_of_hasEnded {pool : ServerPool α Ledger} {k : Nat} {t : PoolTask α}
    (ht : pool.tasks[k]? = some t) (hended : t.hasEnded = true) : pool.event? k = none := by
  rw [event?, ht]
  cases t with
  | cancelled => rfl
  | running task =>
    cases task with
    | done a => rfl
    | step st next => cases hended

/-- A write that has been handed over was there before, or its owner hands it over now. -/
theorem mem_writes_step {pool : ServerPool α Ledger} {m : PoolMove α} {w : FileWrite}
    (h : w ∈ (pool.step Ledger.store m).writes) :
    w ∈ pool.writes ∨ (m = .turn w.owner ∧ ∃ next,
      pool.tasks[w.owner]? = some (.running (.step (.replaceFile w.file w.metrics) next))) := by
  have hmoved := moved pool m
  generalize pool.step Ledger.store m = after at hmoved h
  cases hmoved with
  | turn hturn =>
    cases hturn with
    | hand hk _ =>
      rcases List.mem_append.mp h with h | h
      · exact .inl h
      · obtain rfl := List.mem_singleton.mp h
        exact .inr ⟨rfl, _, hk⟩
    | _ => exact .inl h
  | ending outcome =>
    rw [writes_resume] at h
    exact .inl (List.mem_of_mem_eraseIdx h)
  | _ => exact .inl h

theorem accepts_of_not_turn {pool : ServerPool α Ledger} {m : PoolMove α}
    (h : ∀ k, m ≠ .turn k) : pool.accepts m = [] := by
  cases m with
  | turn k => exact absurd rfl (h k)
  | _ => rfl

/-- A move leaves the ledger with what it accepts. -/
theorem foldlM_accepts (pool : ServerPool α Ledger) (m : PoolMove α) :
    (pool.accepts m).foldlM Ledger.apply pool.state.store =
      .ok (pool.step Ledger.store m).state.store := by
  have hmoved := moved pool m
  generalize pool.step Ledger.store m = after at hmoved
  cases hmoved with
  | nothing hturn =>
    rw [accepts_of_not_turn hturn]
    rfl
  | start task => rfl
  | cancel => rfl
  | ending outcome hends _ hstore =>
    rw [state_resume, accepts_of_not_turn (by cases hends <;> simp)]
    exact congrArg Except.ok hstore.symm
  | @turn k _ hturn =>
    -- Only a call can change the ledger; every other turn accepts nothing and leaves it alone.
    have hquiet (he : pool.event? k = none) : pool.accepts (.turn k) = [] := by
      rw [accepts, he]
      rfl
    cases hturn with
    | idle he =>
      rw [hquiet he]
      rfl
    | call hk =>
      rw [accepts, event?_of_store hk]
      exact LedgerHistoryLemmas.foldlM_accepted pool.state.store _
    | enter hk _ =>
      rw [hquiet (by rw [event?, hk])]
      rfl
    | hand hk _ =>
      rw [hquiet (by rw [event?, hk])]
      rfl
    | leave hk =>
      rw [hquiet (by rw [event?, hk])]
      rfl
    | publish hk =>
      rw [hquiet (by rw [event?, hk])]
      rfl

/-! ## 2. Courses of events -/

section
variable {start : ServerPool α Ledger} {moves : List (PoolMove α)} {n k : Nat}

@[simp] theorem before_zero : start.before moves 0 = start := rfl

theorem before_succ {m : PoolMove α} (h : moves[n]? = some m) :
    start.before moves (n + 1) = (start.before moves n).step Ledger.store m := by
  unfold before run
  rw [List.take_add_one, h, List.foldl_append]
  rfl

theorem before_succ_of_none (h : moves[n]? = none) :
    start.before moves (n + 1) = start.before moves n := by
  unfold before
  rw [List.take_add_one, h]
  exact congrArg (start.run Ledger.store) (List.append_nil _)

theorem before_length : start.before moves moves.length = start.run Ledger.store moves := by
  rw [before, List.take_length]

theorem length_before_le (start : ServerPool α Ledger) (moves : List (PoolMove α)) {m n : Nat} (h : m ≤ n) :
    (start.before moves m).tasks.length ≤ (start.before moves n).tasks.length := by
  induction n, h using Nat.le_induction with
  | base => exact Nat.le_refl _
  | succ n _ ih =>
    cases hmove : moves[n]? with
    | none => rwa [before_succ_of_none hmove]
    | some m =>
      rw [before_succ hmove]
      exact ih.trans (length_step_le _ m)

/-- Every write that has been handed over belongs to a task. -/
theorem owner_lt (hstart : start.writes = []) {w : FileWrite}
    (h : w ∈ (start.before moves n).writes) : w.owner < (start.before moves n).tasks.length := by
  induction n with
  | zero =>
    rw [before_zero, hstart] at h
    cases h
  | succ n ih =>
    refine Nat.lt_of_lt_of_le ?_ (length_before_le start moves (Nat.le_succ n))
    cases hmove : moves[n]? with
    | none => exact ih (before_succ_of_none hmove ▸ h)
    | some m =>
      rw [before_succ hmove] at h
      rcases mem_writes_step h with h | ⟨-, next, htask⟩
      · exact ih h
      · exact (List.getElem?_eq_some_iff.mp htask).1

/-- A task is there once it is started. -/
theorem task_of_startsAt {task : ServerTask α} (h : start.StartsAt moves n k task) :
    (start.before moves (n + 1)).tasks[k]? = some (.running task) := by
  obtain ⟨hmove, hk⟩ := h
  rw [before_succ hmove]
  show ((start.before moves n).tasks ++ [.running task])[k]? = _
  rw [← hk, List.getElem?_concat_length]

/-- A task that is there was started before. -/
theorem lt_of_startsAt {n₀ : Nat} {task : ServerTask α} (hstart : start.StartsAt moves n₀ k task)
    (h : k < (start.before moves n).tasks.length) : n₀ < n := by
  by_contra hle
  have hlen := length_before_le start moves (Nat.le_of_not_lt hle)
  rw [hstart.2] at hlen
  exact absurd h (Nat.not_lt.mpr hlen)

/-- Where a task can be from a point on, by where one move can bring it. -/
theorem stage_of_le (Stage : Nat → PoolTask α → Prop) {m : Nat} {t : PoolTask α}
    (ht : (start.before moves m).tasks[k]? = some t) (hbase : Stage m t)
    (hmono : ∀ n t, Stage n t → Stage (n + 1) t)
    (hsucc : ∀ n move t t', m ≤ n → moves[n]? = some move →
      (start.before moves n).tasks[k]? = some t → Stage n t →
      TaskStep (start.before moves n) move k t t' → Stage (n + 1) t') (hle : m ≤ n) :
    ∃ t, (start.before moves n).tasks[k]? = some t ∧ Stage n t := by
  induction n, hle using Nat.le_induction with
  | base => exact ⟨t, ht, hbase⟩
  | succ n hle ih =>
    obtain ⟨t, ht, hstage⟩ := ih
    cases hmove : moves[n]? with
    | none =>
      rw [before_succ_of_none hmove]
      exact ⟨t, ht, hmono n t hstage⟩
    | some move =>
      obtain ⟨t', ht', hstep⟩ := taskStep_step move ht
      exact ⟨t', before_succ hmove ▸ ht', hsucc n move t t' hle hmove ht hstage hstep⟩

theorem written_append (pool : ServerPool α Ledger) (first more : List (PoolMove α)) :
    pool.written (first ++ more) =
      pool.written first ++ (pool.run Ledger.store first).written more := by
  induction first generalizing pool with
  | nil => rfl
  | cons m first ih =>
    show pool.accepts m ++ (pool.step Ledger.store m).written (first ++ more) = _
    rw [ih, ← List.append_assoc]
    rfl

/-- What was accepted up to a point, and what was accepted from there on. -/
theorem written_take {m : Nat} (h : m ≤ n) :
    start.written (moves.take n) =
      start.written (moves.take m) ++ start.writtenBetween moves m n := by
  have hcut := List.take_append_drop m (moves.take n)
  rw [List.take_take, Nat.min_eq_left h] at hcut
  rw [writtenBetween, before, ← written_append, hcut]

/-- The ledger after a course of events is the fold of what was accepted. -/
theorem foldlM_written (pool : ServerPool α Ledger) (moves : List (PoolMove α)) :
    (pool.written moves).foldlM Ledger.apply pool.state.store =
      .ok (pool.run Ledger.store moves).state.store := by
  induction moves generalizing pool with
  | nil => rfl
  | cons m moves ih =>
    rw [written, List.foldlM_append, foldlM_accepts]
    exact ih (pool.step Ledger.store m)

theorem foldlM_writtenBetween (start : ServerPool α Ledger) (moves : List (PoolMove α)) {m n : Nat}
    (h : m ≤ n) :
    (start.writtenBetween moves m n).foldlM Ledger.apply (start.ledgerAt moves m) =
      .ok (start.ledgerAt moves n) := by
  have hcut := List.take_append_drop m (moves.take n)
  rw [List.take_take, Nat.min_eq_left h] at hcut
  have hrun : (start.before moves m).run Ledger.store ((moves.take n).drop m) =
      start.before moves n := by
    unfold before run
    rw [← List.foldl_append, hcut]
  rw [writtenBetween, ledgerAt, foldlM_written, hrun]
  rfl

theorem task_of_eventAt {e : StoreEvent} (h : start.EventAt moves n k e) :
    ∃ (β : Type) (c : StoreCall β) (next : Except StoreFault β → ServerTask α),
      (start.before moves n).tasks[k]? = some (.running (.step (.store c) next)) ∧
      e = ⟨c, (Ledger.store.call c (start.ledgerAt moves n)).1⟩ := by
  obtain ⟨-, h⟩ := h
  unfold event? at h
  split at h
  next c next htask => exact ⟨_, c, next, htask, (Option.some.inj h).symm⟩
  next => cases h

theorem lt_length_of_eventAt {e : StoreEvent} (h : start.EventAt moves n k e) :
    k < (start.before moves n).tasks.length := by
  obtain ⟨β, c, next, htask, -⟩ := task_of_eventAt h
  exact (List.getElem?_eq_some_iff.mp htask).1

theorem lt_length_of_writesAt (h : start.WritesAt moves n k) :
    k < (start.before moves n).tasks.length := by
  obtain ⟨e, he, -⟩ := h
  exact lt_length_of_eventAt he

/-- A task that is about to do anything else than asking the ledger is not written for. -/
theorem not_writesAt_of_event? (h : (start.before moves n).event? k = none) :
    ¬ start.WritesAt moves n k := by
  rintro ⟨e, ⟨-, he⟩, -⟩
  rw [h] at he
  cases he

/-! ## 3. What is kept between two points -/

/-- Where no write is accepted, the ledger stays as it is. -/
theorem store_succ_of_quiet (h : ∀ k, ¬ start.WritesAt moves n k) :
    start.ledgerAt moves (n + 1) = start.ledgerAt moves n := by
  unfold ledgerAt
  cases hm : moves[n]? with
  | none => rw [before_succ_of_none hm]
  | some m =>
    rw [before_succ hm]
    have hfold := foldlM_accepts (start.before moves n) m
    have hnone : (start.before moves n).accepts m = [] := by
      cases m with
      | turn k =>
        show Option.elim (((start.before moves n).event? k).bind StoreEvent.accepted?) _ _ = _
        cases he : (start.before moves n).event? k with
        | none => rfl
        | some e =>
          rw [Option.bind_some]
          cases ha : e.accepted? with
          | none => rfl
          | some c => exact absurd ⟨e, ⟨hm, he⟩, by rw [ha]; rfl⟩ (h k)
      | _ => rfl
    rw [hnone] at hfold
    exact (Except.ok.inj hfold).symm

theorem store_of_quiet (start : ServerPool α Ledger) (moves : List (PoolMove α)) {m n : Nat}
    (hle : m ≤ n) (h : ∀ i, m ≤ i → i < n → ∀ k, ¬ start.WritesAt moves i k) :
    start.ledgerAt moves n = start.ledgerAt moves m := by
  induction n, hle using Nat.le_induction with
  | base => rfl
  | succ n hle ih =>
    rw [store_succ_of_quiet (h n hle (Nat.lt_succ_self n))]
    exact ih fun i hi hin => h i hi (Nat.lt_succ_of_lt hin)

end
end ServerPool

namespace Ledger

/-- Updates of counters keep the gauges. -/
theorem gauges_of_counters_only {l l' : Ledger} {us : List Update}
    (h : us.foldlM apply l = .ok l') (hus : ∀ u ∈ us, u.value.kind = .counter) :
    l'.gauges = l.gauges := by
  refine Table.ext_get? fun id => ?_
  rw [gauges_foldlM h id]
  have hnone : us.filterMap (Update.readingFor? id) = [] := by
    refine List.filterMap_eq_nil_iff.mpr fun u hu => ?_
    have hkind := hus u hu
    obtain ⟨uid, value⟩ := u
    cases value with
    | gauge x => cases hkind
    | counter d => rfl
  rw [Update.lastReading?, hnone]
  rfl

/-- Updates of gauges keep the counters. -/
theorem counters_of_gauges_only {l l' : Ledger} {us : List Update}
    (h : us.foldlM apply l = .ok l') (hus : ∀ u ∈ us, u.value.kind = .gauge) :
    l'.counters = l.counters := by
  refine Table.ext_get? fun id => ?_
  have hnone : ¬ Update.Mention .counter id us := by
    rintro ⟨u, hu, hkind, -⟩
    rw [hus u hu] at hkind
    cases hkind
  classical
  refine Option.map_injective (fun _ _ => Int64.toInt_inj.mp) ?_
  rw [counters_foldlM h id, if_neg hnone]

end Ledger
end Metering
