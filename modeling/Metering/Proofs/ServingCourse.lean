import Metering.Proofs.PoolRuns
import Metering.Server.Serving

/-!
The course of a server at work, and of its pool.

A server moves its pool, and beyond that it only goes from one phase to the next. It leaves a phase
when the tasks of one kind have ended, and takes up none of that kind from then on. So when the last
save begins all other tasks have ended, and nothing begins after it.

Results:
1. `served`, `pool_run`: what a move of a server can be, and the course of its pool.
2. `settled_run`: what has ended in each phase.
3. `exists_closing`: the last save of a server is alone (`ServerPool.Closing`).
-/
namespace Metering

open ServerTask ServerPool

/-! ## 1. The course of the pool -/

namespace Serving

/-- What a move of a server does to its pool. -/
def poolMove? (v : Serving σ) : ServingMove → Option (PoolMove ServingAnswer)
  | .request r =>
    if v.phase.accepts .request then some (.start ((v.server.ingest.handle r).map .response))
    else none
  | .call c =>
    if v.phase.accepts .call then some (.start ((v.server.ingest.call c).map .reply)) else none
  | .tick => if v.phase.accepts .clock then some (.start v.clockSave) else none
  | .turn task => some (.turn task)
  | .land write => some (.land write)
  | .fail write fault => some (.fail write fault)
  | .leave task => if v.canBeLeft task then some (.cancel task) else none
  | .next =>
    if v.phase = .endingClock ∧ v.isIdle .clock then
      some (.start (v.server.finalSave.map .saved))
    else none

/-- The moves of the pool in a course of a server. -/
def course (store : Store σ) (v : Serving σ) : List ServingMove → List (PoolMove ServingAnswer)
  | [] => []
  | m :: moves => (v.poolMove? m).toList ++ course store (v.step store m) moves

/-- What a move of a server can be: nothing, a task that begins, a move of the pool, a phase that
is over, the last save, or the end. -/
inductive Served (store : Store σ) (v : Serving σ) :
    List (PoolMove ServingAnswer) → Serving σ → Prop
  | nothing : Served store v [] v
  | begins {role : ServingRole} (task : ServerTask ServingAnswer) : v.phase.accepts role = true →
      Served store v [.start task]
        { v with pool := v.pool.step store (.start task), roles := v.roles ++ [role] }
  | moves {m : PoolMove ServingAnswer} : (∀ task, m ≠ .start task) →
      Served store v [m] { v with pool := v.pool.step store m }
  | goesOn {phase : ServingPhase} : v.phase.rank ≤ phase.rank → phase.rank ≤ 3 →
      (∀ role, v.phase.accepts role = true → phase.accepts role = true ∨ v.isIdle role = true) →
      Served store v [] { v with phase := phase }
  | lastSave : v.phase = .endingClock → v.isIdle .clock = true →
      Served store v [.start (v.server.finalSave.map .saved)]
        { v with
          pool := v.pool.step store (.start (v.server.finalSave.map .saved))
          phase := .lastSave }
  | returns : v.phase = .lastSave → Served store v [] { v with phase := .returned }

theorem served (store : Store σ) (v : Serving σ) (m : ServingMove) :
    Served store v (v.poolMove? m).toList (v.step store m) := by
  cases m with
  | request r =>
    simp only [step, take, poolMove?]
    split
    next h => exact .begins _ h
    next => exact .nothing
  | call c =>
    simp only [step, take, poolMove?]
    split
    next h => exact .begins _ h
    next => exact .nothing
  | tick =>
    simp only [step, take, poolMove?]
    split
    next h => exact .begins _ h
    next => exact .nothing
  | turn k => exact .moves (by simp)
  | land i => exact .moves (by simp)
  | fail i fault => exact .moves (by simp)
  | leave k =>
    simp only [step, poolMove?]
    split
    next => exact .moves (by simp)
    next => exact .nothing
  | next =>
    obtain ⟨server, pool, roles, phase⟩ := v
    cases phase with
    | «open» => exact .goesOn (Nat.le_succ _) (by decide) fun role h => .inl (by cases role <;> decide)
    | endingRequests =>
      simp only [step, next]
      split
      next hidle =>
        refine .goesOn (Nat.le_succ _) (by decide) fun role h => ?_
        cases role with
        | request => exact .inr hidle
        | call => exact .inl rfl
        | clock => exact .inl rfl
      next => exact .nothing
    | endingCalls =>
      simp only [step, next]
      split
      next hidle =>
        refine .goesOn (Nat.le_succ _) (by decide) fun role h => ?_
        cases role with
        | request => cases h
        | call => exact .inr hidle
        | clock => exact .inl rfl
      next => exact .nothing
    | endingClock =>
      simp only [step, next, poolMove?, true_and]
      split
      next hidle => exact .lastSave rfl hidle
      next => exact .nothing
    | lastSave =>
      simp only [step, next]
      split
      next => exact .returns rfl
      next => exact .nothing
    | returned => exact .nothing

theorem Served.pool {store : Store σ} {v v' : Serving σ} {ms : List (PoolMove ServingAnswer)}
    (h : Served store v ms v') : v'.pool = v.pool.run store ms := by
  cases h <;> rfl

theorem Served.server {store : Store σ} {v v' : Serving σ} {ms : List (PoolMove ServingAnswer)}
    (h : Served store v ms v') : v'.server = v.server := by
  cases h <;> rfl

/-- The course of a pool under a server. -/
theorem pool_run (store : Store σ) (v : Serving σ) (moves : List ServingMove) :
    (v.run store moves).pool = v.pool.run store (v.course store moves) := by
  induction moves generalizing v with
  | nil => rfl
  | cons m moves ih =>
    show ((v.step store m).run store moves).pool = _
    rw [ih, course, (served store v m).pool, ServerPool.run, ServerPool.run, ← List.foldl_append]
    rfl

theorem server_run (store : Store σ) (v : Serving σ) (moves : List ServingMove) :
    (v.run store moves).server = v.server := by
  induction moves generalizing v with
  | nil => rfl
  | cons m moves ih => exact (ih (v.step store m)).trans (served store v m).server

/-- Only one who goes away cancels a task. -/
theorem leave_mem_of_cancel {store : Store σ} {v : Serving σ} {moves : List ServingMove} {k : Nat}
    (h : .cancel k ∈ v.course store moves) : .leave k ∈ moves := by
  induction moves generalizing v with
  | nil => cases h
  | cons m moves ih =>
    rcases List.mem_append.mp h with h | h
    · refine List.mem_cons.mpr (.inl ?_)
      have hm : v.poolMove? m = some (.cancel k) := Option.mem_toList.mp h
      cases m with
      | leave j =>
        obtain ⟨-, hj⟩ := Option.ite_none_right_eq_some.mp hm
        rw [PoolMove.cancel.inj (Option.some.inj hj)]
      | turn j => cases hm
      | land i => cases hm
      | fail i fault => cases hm
      | _ =>
        obtain ⟨-, hj⟩ := Option.ite_none_right_eq_some.mp hm
        cases hj
    · exact List.mem_cons_of_mem m (ih h)

/-! ## 2. What has ended -/

theorem hasEnded_of_isIdle {v : Serving σ} {role : ServingRole} (h : v.isIdle role = true) {k : Nat}
    (hrole : v.roles[k]? = some role) {t : PoolTask ServingAnswer}
    (ht : v.pool.tasks[k]? = some t) : t.hasEnded = true := by
  refine List.all_eq_true.mp h t (List.mem_filterMap.mpr ⟨(t, role), ?_, if_pos rfl⟩)
  exact List.mem_of_getElem? (List.getElem?_zip_eq_some.mpr ⟨ht, hrole⟩)

theorem rank_le_of_accepts {phase : ServingPhase} {role : ServingRole}
    (h : phase.accepts role = true) : phase.rank ≤ 3 := by
  cases phase with
  | lastSave => cases role <;> cases h
  | returned => cases role <;> cases h
  | _ => decide

/-- Every task has its role, but for the last save. A task of a kind that is no longer taken up
has ended. -/
structure Settled (v : Serving Ledger) : Prop where
  roles : v.phase.rank ≤ 3 → v.roles.length = v.pool.tasks.length
  few : v.roles.length ≤ v.pool.tasks.length
  ended : ∀ (k : Nat) role (t : PoolTask ServingAnswer), v.roles[k]? = some role →
    v.pool.tasks[k]? = some t → v.phase.accepts role = false → t.hasEnded = true

theorem settled_begin (server : Server) (s : ServerState Ledger) : (begin server s).Settled :=
  ⟨fun _ => rfl, Nat.le_refl 0, fun _ _ _ hrole => nomatch hrole⟩

theorem Settled.step {v v' : Serving Ledger} {ms : List (PoolMove ServingAnswer)}
    (hv : v.Settled) (h : Served Ledger.store v ms v') : v'.Settled := by
  -- A task with a role stands where it stood before a start.
  have hold {task : ServerTask ServingAnswer} {k : Nat} {role : ServingRole}
      {t : PoolTask ServingAnswer} (hrole : v.roles[k]? = some role)
      (ht : (v.pool.tasks ++ [.running task])[k]? = some t) : v.pool.tasks[k]? = some t := by
    have hlt := Nat.lt_of_lt_of_le (List.getElem?_eq_some_iff.mp hrole).1 hv.few
    rwa [List.getElem?_append_left hlt] at ht
  cases h with
  | nothing => exact hv
  | @begins role task haccepts =>
    have hlength : (v.roles ++ [role]).length =
        (v.pool.tasks ++ [PoolTask.running task]).length := by
      rw [List.length_append, List.length_append, hv.roles (rank_le_of_accepts haccepts)]
      rfl
    refine ⟨fun _ => hlength, hlength.le, fun k role' t hrole ht hno => ?_⟩
    change (v.roles ++ [role])[k]? = some role' at hrole
    rcases Nat.lt_or_ge k v.roles.length with hlt | hge
    · rw [List.getElem?_append_left hlt] at hrole
      exact hv.ended k role' t hrole (hold hrole ht) hno
    · rw [List.getElem?_append_right hge] at hrole
      obtain rfl := List.mem_singleton.mp (List.mem_of_getElem? hrole)
      exact absurd haccepts (Bool.eq_false_iff.mp hno)
  | @moves m hstart =>
    have hlength := length_step_of_not_start v.pool hstart
    refine ⟨fun hrank => (hv.roles hrank).trans hlength.symm, hv.few.trans hlength.ge,
      fun k role t hrole ht hno => ?_⟩
    have hlt := Nat.lt_of_lt_of_le (List.getElem?_eq_some_iff.mp hrole).1 hv.few
    have hbefore := List.getElem?_eq_getElem hlt
    obtain ⟨t', ht', hstep⟩ := taskStep_step m hbefore
    obtain rfl := Option.some.inj (ht.symm.trans ht')
    exact hstep.hasEnded (hv.ended k role _ hrole hbefore hno)
  | goesOn hle hrank hover =>
    refine ⟨fun _ => hv.roles (hle.trans hrank), hv.few, fun k role t hrole ht hno => ?_⟩
    cases hbefore : v.phase.accepts role with
    | false => exact hv.ended k role t hrole ht hbefore
    | true =>
      rcases hover role hbefore with hyes | hidle
      · exact absurd hyes (Bool.eq_false_iff.mp hno)
      · exact hasEnded_of_isIdle hidle hrole ht
  | lastSave hphase hidle =>
    refine ⟨fun hrank => absurd hrank (by decide : ¬ 4 ≤ 3), ?_, fun k role t hrole ht _ => ?_⟩
    · show v.roles.length ≤ (v.pool.tasks ++ [PoolTask.running _]).length
      rw [List.length_append]
      exact Nat.le_add_right_of_le hv.few
    · have ht := hold hrole ht
      cases role with
      | clock => exact hasEnded_of_isIdle hidle hrole ht
      | _ => exact hv.ended k _ t hrole ht (by rw [hphase]; rfl)
  | returns hphase =>
    refine ⟨fun hrank => absurd hrank (by decide : ¬ 5 ≤ 3), hv.few, fun k role t hrole ht _ => ?_⟩
    exact hv.ended k role t hrole ht (by rw [hphase]; cases role <;> rfl)

theorem settled_run {v : Serving Ledger} (hv : v.Settled) (moves : List ServingMove) :
    (v.run Ledger.store moves).Settled := by
  induction moves generalizing v with
  | nil => exact hv
  | cons m moves ih => exact ih (hv.step (served Ledger.store v m))

end Serving

/-! ## 3. The last task -/

namespace ServerPool

/-- From a point on, one task is alone: it starts there, all others have ended, and none starts
later. -/
structure Closing (start : ServerPool α Ledger) (moves : List (PoolMove α)) (n₀ k : Nat)
    (task : ServerTask α) : Prop where
  starts : start.StartsAt moves n₀ k task
  ended : ∀ (j : Nat) (t : PoolTask α), (start.before moves n₀).tasks[j]? = some t →
    t.hasEnded = true
  alone : ∀ n other, n₀ < n → moves[n]? ≠ some (.start other)

end ServerPool

namespace Serving

/-- When the last save has begun, nothing begins any more. -/
theorem Served.late {v v' : Serving Ledger} {ms : List (PoolMove ServingAnswer)}
    (h : Served Ledger.store v ms v') (hrank : 4 ≤ v.phase.rank) :
    4 ≤ v'.phase.rank ∧ ∀ task, .start task ∉ ms := by
  cases h with
  | nothing => exact ⟨hrank, fun _ => List.not_mem_nil⟩
  | begins task haccepts => exact absurd (rank_le_of_accepts haccepts) (Nat.not_le.mpr hrank)
  | moves hstart => exact ⟨hrank, fun task hm => hstart task (List.mem_singleton.mp hm).symm⟩
  | goesOn hle hthree => exact absurd (hrank.trans (hle.trans hthree)) (by decide)
  | lastSave hphase =>
    rw [hphase] at hrank
    exact absurd hrank (by decide)
  | returns => exact ⟨Nat.le_succ 4, fun _ => List.not_mem_nil⟩

theorem late_course {v : Serving Ledger} (h : 4 ≤ v.phase.rank) (moves : List ServingMove)
    (task : ServerTask ServingAnswer) : .start task ∉ v.course Ledger.store moves := by
  induction moves generalizing v with
  | nil => exact List.not_mem_nil
  | cons first moves ih =>
    obtain ⟨hrank, hfirst⟩ := (served Ledger.store v first).late h
    intro hm
    rcases List.mem_append.mp hm with hm | hm
    · exact hfirst task hm
    · exact ih hrank hm

/-- A server that is at its last save has begun it, when the saves of the clock were over. -/
theorem exists_lastSave {v : Serving Ledger} (hbefore : v.phase.rank ≤ 3)
    {moves : List ServingMove} (h : 4 ≤ (v.run Ledger.store moves).phase.rank) :
    ∃ first more, ∃ w : Serving Ledger, w = v.run Ledger.store first ∧ w.phase = .endingClock ∧
      w.isIdle .clock = true ∧ ∃ w' : Serving Ledger, w'.phase = .lastSave ∧
        v.course Ledger.store moves = v.course Ledger.store first ++
          .start (w.server.finalSave.map .saved) :: w'.course Ledger.store more := by
  induction moves generalizing v with
  | nil => exact absurd (h.trans hbefore) (by decide)
  | cons m moves ih =>
    by_cases hafter : (v.step Ledger.store m).phase.rank ≤ 3
    · obtain ⟨first, more, w, hw, hphase, hidle, w', hlast, hcourse⟩ := ih hafter h
      refine ⟨m :: first, more, w, hw, hphase, hidle, w', hlast, ?_⟩
      rw [course, course, hcourse, List.append_assoc]
    · have hserved := served Ledger.store v m
      have hcourse : v.course Ledger.store (m :: moves) = (v.poolMove? m).toList ++
          (v.step Ledger.store m).course Ledger.store moves := rfl
      refine ⟨[], moves, v, rfl, ?_⟩
      rw [hcourse]
      generalize (v.poolMove? m).toList = ms at hserved ⊢
      generalize v.step Ledger.store m = v' at hserved hafter ⊢
      cases hserved with
      | nothing => exact absurd hbefore hafter
      | begins => exact absurd hbefore hafter
      | moves => exact absurd hbefore hafter
      | goesOn _ hthree => exact absurd hthree hafter
      | lastSave hphase hidle =>
        refine ⟨hphase, hidle, _, ?_, rfl⟩
        rfl
      | returns hphase =>
        rw [hphase] at hbefore
        exact absurd hbefore (by decide)

/-- The last save of a server is alone. -/
theorem exists_closing (server : Server) (s : ServerState Ledger) {moves : List ServingMove}
    (h : 4 ≤ ((begin server s).run Ledger.store moves).phase.rank) :
    ∃ n₀ k, Closing (.ofState s) ((begin server s).course Ledger.store moves) n₀ k
      (server.finalSave.map .saved) := by
  obtain ⟨first, more, w, hw, hphase, hidle, w', hlast, hcourse⟩ :=
    exists_lastSave (v := begin server s) (Nat.zero_le 3) h
  have hsettled : w.Settled := hw ▸ settled_run (settled_begin server s) first
  have hserver : w.server = server := hw ▸ server_run Ledger.store (begin server s) first
  have hlength : w.roles.length = w.pool.tasks.length := hsettled.roles (by rw [hphase]; decide)
  generalize hfirst : (begin server s).course Ledger.store first = past at hcourse
  have hpool : (ofState s).before ((begin server s).course Ledger.store moves) past.length =
      w.pool := by
    rw [before, hcourse, List.take_left, hw, pool_run, hfirst]
    rfl
  have hlate := late_course (v := w') (by rw [hlast]; decide) more
  refine ⟨past.length, w.pool.tasks.length, ⟨⟨?_, ?_⟩, ?_, ?_⟩⟩
  · rw [hcourse, hserver, List.getElem?_append_right (Nat.le_refl _), Nat.sub_self]
    rfl
  · rw [hpool]
  · intro j t ht
    rw [hpool] at ht
    obtain ⟨role, hrole⟩ : ∃ role, w.roles[j]? = some role :=
      ⟨_, List.getElem?_eq_getElem (hlength ▸ (List.getElem?_eq_some_iff.mp ht).1)⟩
    cases role with
    | clock => exact hasEnded_of_isIdle hidle hrole ht
    | _ => exact hsettled.ended j _ t hrole ht (by rw [hphase]; rfl)
  · intro n other hn hm
    obtain ⟨d, rfl⟩ := Nat.exists_eq_add_of_lt hn
    rw [hcourse, List.getElem?_append_right (Nat.le_of_lt hn), Nat.add_assoc,
      Nat.add_sub_cancel_left, List.getElem?_cons_succ] at hm
    exact hlate other (List.mem_of_getElem? hm)

end Serving
end Metering
