import Mathlib.Data.List.Induction
import Metering.Proofs.LedgerHistory

/-!
Calls that are repeated among the calls of others.

A store that repeats makes a call again while its fault is transient. It holds nothing in between:
while one client waits for its next attempt, the attempts of the others get through. So a call is
written out here as a dialogue of attempts (`StoreTask.repeated`), and the attempts of all clients
interleave on the store behind, which may fail whenever it likes.

`RepeatedCall` is a call that has returned, with the faults of its attempts in vain. `Settled` says
what such calls amount to: each of them has made exactly the attempts that the schedule asks for,
and those that returned an answer have been executed once each, in the order of their return, and
nothing else has.

Results:
1. `run_repeated`: alone, a client ends as it does on the store that repeats.
2. `Stands.step`: one attempt, seen from the client that makes it.
3. `Settled.step`, `settled_run`: what one attempt, and then a whole run, leaves of all clients.
4. `repeated_calls_execute_once`: the two together, and counters as sums over calls.
-/
namespace Metering

/-! ## 1. Attempt by attempt -/

/-- How often a call may be made again. -/
def StoreCall.limit (schedule : RetrySchedule) (c : StoreCall β) : Nat :=
  if c.isRepeated then schedule.waits.length else 0

namespace StoreTask

/-- A call that may be made again `n` times, and is while its fault is transient. -/
def attempts (c : StoreCall β) (next : Except StoreFault β → StoreTask α) : Nat → StoreTask α
  | 0 => .ask c next
  | n + 1 => .ask c fun
    | .ok b => next (.ok b)
    | .error f => if f.isTransient then attempts c next n else next (.error f)

/-- A task whose calls are all made attempt by attempt. -/
def repeated (schedule : RetrySchedule) : StoreTask α → StoreTask α
  | .done answer => .done answer
  | .ask c next => attempts c (fun r => (next r).repeated schedule) (c.limit schedule)

theorem run_ask {store : Store σ} {c : StoreCall β} {s s' : σ} {answer : Except StoreFault β}
    (h : store.call c s = (answer, s')) (next : Except StoreFault β → StoreTask α) :
    (ask c next).run store s = (next answer).run store s' := by
  rw [run, h]

theorem run_attempts (store : Store σ) (c : StoreCall β)
    (next : Except StoreFault β → StoreTask α) (waits : List Nat) (s : σ) :
    (attempts c next waits.length).run store s =
      (next (retry StoreFault.isTransient untimed (store.call c) waits s).answer).run store
        (retry StoreFault.isTransient untimed (store.call c) waits s).state := by
  induction waits generalizing s with
  | nil => rfl
  | cons w waits ih =>
    rcases hcall : store.call c s with ⟨answer, s'⟩
    rw [List.length_cons, attempts, run_ask hcall, retry, hcall]
    cases answer with
    | ok b => rfl
    | error f =>
      dsimp only
      split
      next => exact ih s'
      next => rfl

/-- Alone, a task that is made attempt by attempt ends as on the store that repeats. -/
theorem run_repeated (schedule : RetrySchedule) (store : Store σ) (t : StoreTask α)
    (cost : RetryCost) (s : σ) :
    (t.repeated schedule).run store s =
      ((t.run (store.retrying schedule) (cost, s)).1,
        (t.run (store.retrying schedule) (cost, s)).2.2) := by
  induction t generalizing cost s with
  | done answer => rfl
  | ask c next ih =>
    have hlimit : c.limit schedule = (if c.isRepeated then schedule.waits else []).length := by
      unfold StoreCall.limit
      split <;> rfl
    rw [repeated, hlimit, run_attempts]
    exact ih _ _ _

end StoreTask

/-! ## 2. Clients -/

/-- A call that a store which repeats has answered. -/
structure RepeatedCall : Type 1 where
  {Answer : Type}
  call : StoreCall Answer
  /-- The faults of the attempts before the last one. -/
  faults : List StoreFault
  /-- The outcome of the last attempt. -/
  answer : Except StoreFault Answer

namespace RepeatedCall

/-- The call as its client sees it. -/
def event (e : RepeatedCall) : StoreEvent := ⟨e.call, e.answer⟩

/-- The attempts in vain of a call. -/
def inVain (c : StoreCall α) (faults : List StoreFault) : List StoreEvent :=
  faults.map fun f => ⟨c, .error f⟩

/-- The attempts of a call, all of them the same call to the store behind. -/
def attempts (e : RepeatedCall) : List StoreEvent := inVain e.call e.faults ++ [e.event]

/-- The last attempt is the first one after which no other is due: because the schedule is used up,
or because the outcome is no transient fault. -/
structure Complete (schedule : RetrySchedule) (e : RepeatedCall) : Prop where
  transient : ∀ f ∈ e.faults, f.isTransient = true
  within : e.faults.length ≤ e.call.limit schedule
  last : e.faults.length = e.call.limit schedule ∨
    ∀ f, e.answer = .error f → f.isTransient = false

end RepeatedCall

/-- A client that had a task to do, and got the answers of these calls, has the rest left to do. -/
inductive StoreTask.Answered : StoreTask α → List RepeatedCall → StoreTask α → Prop
  | start (t : StoreTask α) : Answered t [] t
  | call {t : StoreTask α} {calls : List RepeatedCall} {c : StoreCall β}
      {next : Except StoreFault β → StoreTask α} (faults : List StoreFault)
      (answer : Except StoreFault β) :
      Answered t calls (.ask c next) → Answered t (calls ++ [⟨c, faults, answer⟩]) (next answer)

/-- Where a client of a store that repeats can be: `calls` have returned, and the task has ended or
is at a call whose attempts so far were in vain. Then the client has made these attempts, and it
goes on with the task `now`. -/
inductive Stands (schedule : RetrySchedule) (t : StoreTask α) (calls : List RepeatedCall) :
    List StoreEvent → StoreTask α → Prop
  | ended {answer : Except StoreFault α} :
      t.Answered calls (.done answer) →
      Stands schedule t calls (calls.flatMap RepeatedCall.attempts) (.done answer)
  | trying {c : StoreCall β} {next : Except StoreFault β → StoreTask α}
      {faults : List StoreFault} :
      t.Answered calls (.ask c next) → (∀ f ∈ faults, f.isTransient = true) →
      faults.length ≤ c.limit schedule →
      Stands schedule t calls
        (calls.flatMap RepeatedCall.attempts ++ RepeatedCall.inVain c faults)
        (.attempts c (fun r => (next r).repeated schedule) (c.limit schedule - faults.length))

namespace Stands

variable {schedule : RetrySchedule} {t : StoreTask α} {calls : List RepeatedCall}
  {made : List StoreEvent}

/-- A client between two calls. -/
theorem of_answered {rest : StoreTask α} (h : t.Answered calls rest) :
    Stands schedule t calls (calls.flatMap RepeatedCall.attempts) (rest.repeated schedule) := by
  cases rest with
  | done answer => exact .ended h
  | ask c next =>
    have hstart : Stands schedule t calls
        (calls.flatMap RepeatedCall.attempts ++ RepeatedCall.inVain c [])
        (.attempts c (fun r => (next r).repeated schedule) (c.limit schedule)) :=
      .trying h (fun f hf => by cases hf) (Nat.zero_le _)
    rwa [RepeatedCall.inVain, List.map_nil, List.append_nil] at hstart

/-- A client that gets the last outcome of a call goes on with its task. -/
theorem returned {c : StoreCall β} {next : Except StoreFault β → StoreTask α}
    (faults : List StoreFault) (answer : Except StoreFault β) (h : t.Answered calls (.ask c next)) :
    Stands schedule t (calls ++ [⟨c, faults, answer⟩])
      (calls.flatMap RepeatedCall.attempts ++ RepeatedCall.inVain c faults ++ [⟨c, answer⟩])
      ((next answer).repeated schedule) := by
  have hmade : (calls ++ [(⟨c, faults, answer⟩ : RepeatedCall)]).flatMap RepeatedCall.attempts =
      calls.flatMap RepeatedCall.attempts ++ RepeatedCall.inVain c faults ++ [⟨c, answer⟩] := by
    rw [List.flatMap_append, List.flatMap_singleton, RepeatedCall.attempts, ← List.append_assoc]
    rfl
  rw [← hmade]
  exact of_answered (h.call faults answer)

/-- One attempt: it was in vain and the client makes it again, or the call returns with it. -/
theorem step {c : StoreCall β} {next : Except StoreFault β → StoreTask α}
    (h : Stands schedule t calls made (.ask c next)) (answer : Except StoreFault β) :
    ((∃ f, answer = .error f) ∧ Stands schedule t calls (made ++ [⟨c, answer⟩]) (next answer)) ∨
      ∃ faults, RepeatedCall.Complete schedule ⟨c, faults, answer⟩ ∧
        Stands schedule t (calls ++ [⟨c, faults, answer⟩]) (made ++ [⟨c, answer⟩])
          (next answer) := by
  generalize hnow : StoreTask.ask c next = now at h
  cases h with
  | ended h => cases hnow
  | @trying _ c' next' faults h htransient hwithin =>
    cases hleft : c'.limit schedule - faults.length with
    | zero =>
      -- The schedule is used up, so whatever comes is the answer.
      have hlast : faults.length = c'.limit schedule := by omega
      rw [hleft, StoreTask.attempts] at hnow
      cases hnow
      exact .inr ⟨faults, ⟨htransient, hwithin, .inl hlast⟩, returned faults answer h⟩
    | succ n =>
      have hmore : faults.length + 1 ≤ c'.limit schedule := by omega
      rw [hleft, StoreTask.attempts] at hnow
      cases hnow
      cases answer with
      | ok b =>
        exact .inr ⟨faults, ⟨htransient, hwithin, .inr fun f hf => by cases hf⟩,
          returned faults (.ok b) h⟩
      | error f =>
        cases hf : f.isTransient with
        | true =>
          have hlength : (faults ++ [f]).length = faults.length + 1 := List.length_append
          have hn : c.limit schedule - (faults ++ [f]).length = n := by omega
          have hmade : calls.flatMap RepeatedCall.attempts ++ RepeatedCall.inVain c faults ++
              [⟨c, .error f⟩] =
                calls.flatMap RepeatedCall.attempts ++ RepeatedCall.inVain c (faults ++ [f]) := by
            rw [RepeatedCall.inVain, RepeatedCall.inVain, List.map_append, List.append_assoc]
            rfl
          refine .inl ⟨⟨f, rfl⟩, ?_⟩
          dsimp only
          rw [if_pos hf, hmade, ← hn]
          exact trying h (List.forall_mem_append.mpr ⟨htransient, List.forall_mem_singleton.mpr hf⟩)
            (hlength ▸ hmore)
        | false =>
          refine .inr ⟨faults, ⟨htransient, hwithin, .inr fun g hg => ?_⟩, ?_⟩
          · exact Except.error.inj hg ▸ hf
          · dsimp only
            rw [if_neg (by rw [hf]; decide)]
            exact returned faults (.error f) h

end Stands

/-! ## 3. The store behind -/

namespace Store

/-- A store that a failed call leaves as it was. -/
def KeepsOnFault (store : Store σ) : Prop :=
  ∀ {β : Type} (c : StoreCall β) (s : σ) (f : StoreFault),
    (store.call c s).1 = .error f → (store.call c s).2 = s

/-- The calls of a list, made one after another and once each, get the answers that stand beside
them and lead from one state to the other. -/
def Replays (store : Store σ) : σ → List StoreEvent → σ → Prop
  | s, [], s' => s' = s
  | s, e :: es, s' => (store.call e.call s).1 = e.answer ∧ store.Replays (store.call e.call s).2 es s'

theorem Replays.append {store : Store σ} {s mid s' : σ} {es : List StoreEvent} {c : StoreCall β}
    {answer : Except StoreFault β} (h : store.Replays s es mid)
    (hcall : store.call c mid = (answer, s')) : store.Replays s (es ++ [⟨c, answer⟩]) s' := by
  induction es generalizing s with
  | nil =>
    obtain rfl : mid = s := h
    exact ⟨congrArg Prod.fst hcall, (congrArg Prod.snd hcall).symm⟩
  | cons e es ih => exact ⟨h.1, ih h.2⟩

variable {store : Store σ} {c : StoreCall β} {s : Outages × σ}

/-- A call that fails, foretold or not, leaves the store behind as it was. -/
theorem withOutages_error (hkeeps : store.KeepsOnFault) {f : StoreFault}
    (h : (store.withOutages.call c s).1 = .error f) : (store.withOutages.call c s).2.2 = s.2 := by
  obtain ⟨outages, inner⟩ := s
  cases outages with
  | nil => exact hkeeps c inner f h
  | cons outage rest =>
    cases outage with
    | none => exact hkeeps c inner f h
    | some fault => rfl

/-- A call that succeeds is a call of the store behind. -/
theorem withOutages_ok {b : β} (h : (store.withOutages.call c s).1 = .ok b) :
    store.call c s.2 = (.ok b, (store.withOutages.call c s).2.2) := by
  obtain ⟨outages, inner⟩ := s
  cases outages with
  | nil => exact Prod.ext h rfl
  | cons outage rest =>
    cases outage with
    | none => exact Prod.ext h rfl
    | some fault => cases h

end Store

theorem Ledger.keepsOnFault : Ledger.store.KeepsOnFault := by
  intro β c l f h
  cases c with
  | addCounter id d =>
    simp only [Ledger.store, Ledger.answer] at h ⊢
    split at h
    next => cases h
    next => rfl
  | batch us =>
    simp only [Ledger.store, Ledger.answer] at h ⊢
    split at h
    next => cases h
    next => rfl
  | _ => cases h

/-! ## 4. All clients -/

/-- What one client has done, from a list of what all have done. -/
def ofClient {E : Type u} (k : Nat) (es : List (Nat × E)) : List E :=
  es.filterMap fun e => if e.1 = k then some e.2 else none

/-- Whether a call got an answer. -/
def StoreEvent.succeeded (e : StoreEvent) : Bool := e.answer.isOk

/-- The calls that have returned, as their clients see them. -/
def RepeatedCall.history (calls : List (Nat × RepeatedCall)) : StoreHistory :=
  calls.map fun e => (e.1, e.2.event)

/-- The part of a history that got an answer. -/
def StoreHistory.answered (h : StoreHistory) : StoreHistory := h.filter fun e => e.2.succeeded

/-- What the calls of clients amount to on a store that repeats. The store behind was at `s`, its
calls were `history`, and the clients are now in `pool`; `calls` are those that have returned.

* Each call has made the attempts that the schedule asks for, and returned the last outcome.
* The calls to the store behind are, client by client, the attempts of the calls in order, and
  those of a call under way.
* A call that returned an answer has succeeded once, and there is no other success.
* The state is what the calls that returned an answer lead to, made once each. -/
structure Settled (schedule : RetrySchedule) (store : Store σ) (clients : List (StoreTask α))
    (s : σ) (history : StoreHistory) (pool : TaskPool α (Outages × σ))
    (calls : List (Nat × RepeatedCall)) : Prop where
  complete : ∀ e ∈ calls, e.2.Complete schedule
  size : pool.tasks.length = clients.length
  stands : ∀ (k : Nat) (t now : StoreTask α), clients[k]? = some t → pool.tasks[k]? = some now →
    Stands schedule t (ofClient k calls) (ofClient k history) now
  once : history.answered = (RepeatedCall.history calls).answered
  replays : store.Replays s (history.answered.map Prod.snd) pool.state.2

namespace TaskPool

/-- One more turn at the end adds its call to the history. -/
theorem history_concat (store : Store σ) (pool : TaskPool α σ) (turns : List Nat) (k : Nat) :
    pool.history store (turns ++ [k]) = pool.history store turns ++
      (((pool.run store turns).event? store k).map fun e => (k, e)).toList := by
  induction turns generalizing pool with
  | nil => exact List.append_nil _
  | cons k' turns ih =>
    rw [List.cons_append, history, history, ih, List.append_assoc]
    rfl

end TaskPool

namespace RepeatedCallLemmas

theorem ofClient_append_self (k : Nat) (es : List (Nat × E)) (e : E) :
    ofClient k (es ++ [(k, e)]) = ofClient k es ++ [e] := by
  simp [ofClient]

theorem ofClient_append_of_ne {k k' : Nat} (h : k' ≠ k) (es : List (Nat × E)) (e : E) :
    ofClient k' (es ++ [(k, e)]) = ofClient k' es := by
  simp [ofClient, h.symm]

theorem answered_append (h : StoreHistory) (k : Nat) (e : StoreEvent) :
    StoreHistory.answered (h ++ [(k, e)]) =
      h.answered ++ if e.succeeded then [(k, e)] else [] := by
  unfold StoreHistory.answered
  rw [List.filter_append, List.filter_singleton]
  cases e.succeeded <;> rfl

theorem history_append (calls : List (Nat × RepeatedCall)) (k : Nat) (e : RepeatedCall) :
    RepeatedCall.history (calls ++ [(k, e)]) = RepeatedCall.history calls ++ [(k, e.event)] :=
  List.map_append

end RepeatedCallLemmas

namespace Settled

open RepeatedCallLemmas

variable {schedule : RetrySchedule} {store : Store σ} {clients : List (StoreTask α)} {s : σ}
  {history : StoreHistory} {pool : TaskPool α (Outages × σ)} {calls : List (Nat × RepeatedCall)}

/-- An attempt of one client leaves the others where they are. -/
theorem stands_set (h : Settled schedule store clients s history pool calls) {k : Nat}
    {t rest : StoreTask α} {e : StoreEvent} {calls' : List (Nat × RepeatedCall)}
    (ht : clients[k]? = some t)
    (hk : Stands schedule t (ofClient k calls') (ofClient k history ++ [e]) rest)
    (hothers : ∀ k', k' ≠ k → ofClient k' calls' = ofClient k' calls)
    (k' : Nat) (t' now : StoreTask α) (ht' : clients[k']? = some t')
    (hnow : (pool.tasks.set k rest)[k']? = some now) :
    Stands schedule t' (ofClient k' calls') (ofClient k' (history ++ [(k, e)])) now := by
  rw [List.getElem?_set] at hnow
  by_cases hsame : k' = k
  · subst hsame
    obtain rfl := Option.some.inj (ht.symm.trans ht')
    rw [if_pos rfl] at hnow
    split at hnow
    next =>
      obtain rfl := Option.some.inj hnow
      rwa [ofClient_append_self]
    next => cases hnow
  · rw [if_neg (Ne.symm hsame)] at hnow
    rw [ofClient_append_of_ne hsame, hothers k' hsame]
    exact h.stands k' t' now ht' hnow

theorem start (schedule : RetrySchedule) (store : Store σ) (clients : List (StoreTask α))
    (outages : Outages) (s : σ) :
    Settled schedule store clients s []
      ⟨(outages, s), clients.map (StoreTask.repeated schedule)⟩ [] where
  complete e he := by cases he
  size := List.length_map _
  stands k t now ht hnow := by
    rw [List.getElem?_map, ht] at hnow
    obtain rfl := Option.some.inj hnow
    exact .of_answered (.start t)
  once := rfl
  replays := rfl

/-- An attempt in vain changes nothing but the history. -/
theorem failed (h : Settled schedule store clients s history pool calls)
    {k : Nat} {t : StoreTask α} {c : StoreCall β} {f : StoreFault} {rest : StoreTask α}
    {state : Outages × σ} (ht : clients[k]? = some t) (hstate : state.2 = pool.state.2)
    (hk : Stands schedule t (ofClient k calls) (ofClient k history ++ [⟨c, .error f⟩]) rest) :
    Settled schedule store clients s (history ++ [(k, ⟨c, .error f⟩)])
      ⟨state, pool.tasks.set k rest⟩ calls := by
  have hanswered : StoreHistory.answered (history ++ [(k, ⟨c, .error f⟩)]) = history.answered := by
    rw [answered_append]
    exact List.append_nil _
  exact {
    complete := h.complete
    size := List.length_set.trans h.size
    stands := h.stands_set ht hk fun _ _ => rfl
    once := hanswered.trans h.once
    replays := by
      rw [hanswered]
      dsimp only
      rw [hstate]
      exact h.replays }

/-- A call that returns is executed once if it returns an answer, and else not at all. -/
theorem returned (h : Settled schedule store clients s history pool calls)
    {k : Nat} {t : StoreTask α} {e : RepeatedCall} {rest : StoreTask α} {state : Outages × σ}
    (ht : clients[k]? = some t) (he : e.Complete schedule)
    (hexecuted : ∀ b, e.answer = .ok b → store.call e.call pool.state.2 = (.ok b, state.2))
    (hkept : ∀ f, e.answer = .error f → state.2 = pool.state.2)
    (hk : Stands schedule t (ofClient k calls ++ [e]) (ofClient k history ++ [e.event]) rest) :
    Settled schedule store clients s (history ++ [(k, e.event)]) ⟨state, pool.tasks.set k rest⟩
      (calls ++ [(k, e)]) := by
  refine {
    complete := List.forall_mem_append.mpr ⟨h.complete, List.forall_mem_singleton.mpr he⟩
    size := List.length_set.trans h.size
    stands := h.stands_set ht (by rwa [ofClient_append_self]) fun k' hne =>
      ofClient_append_of_ne hne calls e
    once := by rw [history_append, answered_append, answered_append, h.once]
    replays := ?_ }
  obtain ⟨c, faults, answer⟩ := e
  rw [answered_append]
  cases answer with
  | ok b =>
    rw [show (RepeatedCall.event ⟨c, faults, .ok b⟩).succeeded = true from rfl, if_pos rfl,
      List.map_append]
    exact h.replays.append (hexecuted b rfl)
  | error f =>
    rw [show (RepeatedCall.event ⟨c, faults, .error f⟩).succeeded = false from rfl,
      if_neg Bool.false_ne_true, List.append_nil]
    dsimp only
    rw [hkept f rfl]
    exact h.replays

/-- One turn: nothing, an attempt in vain, or a call that returns. -/
theorem step (hkeeps : store.KeepsOnFault)
    (h : Settled schedule store clients s history pool calls) (k : Nat) :
    ∃ calls', Settled schedule store clients s
      (history ++ ((pool.event? store.withOutages k).map fun e => (k, e)).toList)
      (pool.step store.withOutages k) calls' := by
  have hidle (hevent : pool.event? store.withOutages k = none)
      (hstep : pool.step store.withOutages k = pool) : ∃ calls',
      Settled schedule store clients s
        (history ++ ((pool.event? store.withOutages k).map fun e => (k, e)).toList)
        (pool.step store.withOutages k) calls' := by
    rw [hevent, hstep, Option.map_none, Option.toList_none, List.append_nil]
    exact ⟨calls, h⟩
  cases htask : pool.tasks[k]? with
  | none => exact hidle (by rw [TaskPool.event?, htask]) (by rw [TaskPool.step, htask])
  | some now =>
    cases now with
    | done answer => exact hidle (by rw [TaskPool.event?, htask]) (by rw [TaskPool.step, htask])
    | ask c next =>
      have hk : k < clients.length := h.size ▸ (List.getElem?_eq_some_iff.mp htask).1
      have ht : clients[k]? = some clients[k] := List.getElem?_eq_getElem hk
      have hstep : pool.step store.withOutages k =
          ⟨(store.withOutages.call c pool.state).2,
            pool.tasks.set k (next (store.withOutages.call c pool.state).1)⟩ := by
        rw [TaskPool.step, htask]
      rw [TaskPool.event?_of_ask htask, hstep]
      dsimp only [Option.map_some, Option.toList_some]
      rcases (h.stands k _ _ ht htask).step (store.withOutages.call c pool.state).1 with
        ⟨⟨f, hf⟩, hstands⟩ | ⟨faults, hcomplete, hstands⟩
      · rw [hf] at hstands ⊢
        exact ⟨calls, h.failed ht (Store.withOutages_error hkeeps hf) hstands⟩
      · exact ⟨_, h.returned ht hcomplete (fun b hb => Store.withOutages_ok hb)
          (fun f hf => Store.withOutages_error hkeeps hf) hstands⟩

/-- A run, turn by turn. -/
theorem run (hkeeps : store.KeepsOnFault) (schedule : RetrySchedule) (clients : List (StoreTask α))
    (outages : Outages) (s : σ) (turns : List Nat) :
    let start : TaskPool α (Outages × σ) := ⟨(outages, s), clients.map (StoreTask.repeated schedule)⟩
    ∃ calls, Settled schedule store clients s (start.history store.withOutages turns)
      (start.run store.withOutages turns) calls := by
  intro start
  induction turns using List.reverseRecOn with
  | nil => exact ⟨[], .start schedule store clients outages s⟩
  | append_singleton turns k ih =>
    obtain ⟨calls, h⟩ := ih
    rw [TaskPool.history_concat, show start.run store.withOutages (turns ++ [k]) =
      (start.run store.withOutages turns).step store.withOutages k from List.foldl_append]
    exact h.step hkeeps k

end Settled

/-! ## 5. Counters -/

namespace RepeatedCallLemmas

/-- What was not answered has written nothing. -/
theorem written_answered (h : StoreHistory) : h.answered.written = h.written := by
  unfold StoreHistory.written StoreHistory.successes StoreHistory.answered
  rw [List.filterMap_filter]
  refine congrArg (fun f => (List.filterMap f h).flatMap StoreCall.writes) (funext fun e => ?_)
  split
  next => rfl
  next hfails =>
    obtain ⟨k, c, answer⟩ := e
    cases answer with
    | ok b => exact absurd rfl hfails
    | error f => exact (StoreEvent.accepted?_of_failed ⟨f, rfl⟩).symm

/-- Calls made once each on a ledger leave the fold of their updates. -/
theorem foldlM_of_replays {h : StoreHistory} {l l' : Ledger}
    (hreplays : Ledger.store.Replays l (h.map Prod.snd) l') :
    h.written.foldlM Ledger.apply l = .ok l' := by
  induction h generalizing l with
  | nil => exact congrArg Except.ok hreplays.symm
  | cons e h ih =>
    obtain ⟨k, c, answer⟩ := e
    obtain ⟨hanswer, hrest⟩ := hreplays
    obtain rfl : (Ledger.store.call c l).1 = answer := hanswer
    have hwritten : StoreHistory.written ((k, ⟨c, (Ledger.store.call c l).1⟩) :: h) =
        ((StoreEvent.accepted? ⟨c, (Ledger.store.call c l).1⟩).elim [] StoreCall.writes) ++
          StoreHistory.written h := by
      unfold StoreHistory.written StoreHistory.successes
      rw [List.filterMap_cons]
      cases StoreEvent.accepted? ⟨c, (Ledger.store.call c l).1⟩ <;> rfl
    rw [hwritten, List.foldlM_append, LedgerHistoryLemmas.foldlM_accepted]
    exact ih hrest

end RepeatedCallLemmas

open RepeatedCallLemmas in
/-- The ledger behind is the fold of the updates of the calls that returned an answer. -/
theorem Settled.foldlM {schedule : RetrySchedule} {clients : List (StoreTask α)} {l : Ledger}
    {history : StoreHistory} {pool : TaskPool α (Outages × Ledger)}
    {calls : List (Nat × RepeatedCall)}
    (h : Settled schedule Ledger.store clients l history pool calls) :
    (RepeatedCall.history calls).written.foldlM Ledger.apply l = .ok pool.state.2 := by
  rw [← written_answered, ← h.once]
  exact foldlM_of_replays h.replays

open Update LedgerHistoryLemmas in
/-- Clients of any number and any behaviour share a store that repeats calls on a schedule. The
store behind it leaves nothing behind when it fails, and faults of every kind are injected into
its calls in any pattern; `turns` is any interleaving of the attempts.

* Made alone, a task ends as on the store that repeats, so the attempts are the attempts of that
  store.
* At every point, all calls have `Settled`: each one that returned has made an attempt more than
  it had transient faults in front of the outcome that it returned, which is the first one that is
  not transient or the last one of the schedule. It has been executed exactly once if that outcome
  is an answer and not at all otherwise. A ping has no schedule: it is one attempt.
* On a ledger that started empty, each counter is the exact sum of its differences in the calls
  that returned an answer. -/
theorem repeated_calls_execute_once (schedule : RetrySchedule) (clients : List (StoreTask α))
    (outages : Outages) (turns : List Nat) :
    (∀ {σ : Type} (store : Store σ) (t : StoreTask α) (cost : RetryCost) (s : σ),
      (t.repeated schedule).run store s =
        ((t.run (store.retrying schedule) (cost, s)).1,
          (t.run (store.retrying schedule) (cost, s)).2.2)) ∧
    (∀ {σ : Type} (store : Store σ) (s : σ), store.KeepsOnFault →
      let start : TaskPool α (Outages × σ) :=
        ⟨(outages, s), clients.map (StoreTask.repeated schedule)⟩
      ∃ calls, Settled schedule store clients s (start.history store.withOutages turns)
        (start.run store.withOutages turns) calls) ∧
    (let start : TaskPool α (Outages × Ledger) :=
        ⟨(outages, .empty), clients.map (StoreTask.repeated schedule)⟩
      let pool := start.run Ledger.store.withOutages turns
      ∃ calls, Settled schedule Ledger.store clients .empty
          (start.history Ledger.store.withOutages turns) pool calls ∧
        ∀ id sum, (pool.state.2.counters.get? id).map Int64.toInt = some sum ↔
          Mention .counter id (RepeatedCall.history calls).written ∧
            sum = counterSum id (RepeatedCall.history calls).written) := by
  refine ⟨fun store t cost s => t.run_repeated schedule store cost s,
    fun store s hkeeps => Settled.run hkeeps schedule clients outages s turns, ?_⟩
  obtain ⟨calls, h⟩ :=
    Settled.run Ledger.keepsOnFault schedule clients outages Ledger.empty turns
  exact ⟨calls, h, counter_eq_some_iff h.foldlM⟩

/-- Two writers lose an attempt each, the second one while the first one waits. -/
theorem repeated_calls_execute_once_two_writers :
    let lost : StoreFault := ⟨.transient, .stated "lost"⟩
    let clients : List (StoreTask Unit) :=
      [.single (.batch [⟨"c", .counter 5⟩]), .single (.addCounter "c" 2)]
    let start : TaskPool Unit (Outages × Ledger) :=
      ⟨([some lost, some lost], .empty), clients.map (StoreTask.repeated ⟨[1000]⟩)⟩
    let pool := start.run Ledger.store.withOutages [0, 1, 1, 0]
    Ledger.store.KeepsOnFault ∧ pool.state.2.get? .counter "c" = some (.counter 7) ∧
      ∃ calls, Settled ⟨[1000]⟩ Ledger.store clients .empty
        (start.history Ledger.store.withOutages [0, 1, 1, 0]) pool calls := by
  intro lost clients start pool
  exact ⟨Ledger.keepsOnFault, by decide +kernel,
    (repeated_calls_execute_once ⟨[1000]⟩ clients [some lost, some lost] [0, 1, 1, 0]).2.1
      Ledger.store .empty Ledger.keepsOnFault⟩

/-- Not every call is made again: a ping is one attempt, though its fault is transient and the
schedule has room for another. -/
theorem transient_ping_not_repeated :
    let lost : StoreFault := ⟨.transient, .stated "lost"⟩
    let schedule : RetrySchedule := ⟨[0]⟩
    let out := (Ledger.store.withOutages.retrying schedule).call .ping (.none, [some lost], .empty)
    out.1 = .error lost ∧ lost.isTransient = true ∧ out.2.1.calls = 1 ∧ 1 < schedule.maxCalls := by
  exact ⟨rfl, rfl, rfl, by decide⟩

end Metering
