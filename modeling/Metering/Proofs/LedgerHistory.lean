import Mathlib.Algebra.BigOperators.Group.List.Basic
import Mathlib.Algebra.Ring.Int.Defs
import Mathlib.Algebra.Ring.Nat
import Metering.Proofs.BatchFold
import Metering.Store.Repository

/-!
What a ledger says about its past.

Clients are tasks whose calls interleave, one call at a time. The history of a run lists the calls
in the order in which the ledger answered them, each with its client and its answer. Which calls
succeed depends on the order, since a sum is checked against the running total; but the calls that
did succeed determine the ledger.

Results:
1. `foldlM_apply_written`: a run of calls leaves what the successful writes alone would leave.
2. `counters_foldlM`, `gauges_foldlM`: counters are exact sums and gauges are last readings.
3. `ledger_of_history`: the two together, for every interleaving of any clients, with what a
   failed call leaves behind (nothing) and with the irrelevance of the order for counters.
-/
namespace Metering

/-! ## What updates say about one id -/

namespace Update

/-- What an update adds to the counter of a given id. -/
def deltaFor (id : String) (u : Update) : Int :=
  match u.value with
  | .counter d => if u.id = id then d.toInt else 0
  | .gauge _ => 0

/-- The reading that an update gives the gauge of a given id. -/
def readingFor? (id : String) (u : Update) : Option Binary64 :=
  match u.value with
  | .gauge x => if u.id = id then some x else none
  | .counter _ => none

/-- The exact sum of the differences for a counter. -/
def counterSum (id : String) (us : List Update) : Int := (us.map (deltaFor id)).sum

/-- The last of the readings for a gauge. -/
def lastReading? (id : String) (us : List Update) : Option Binary64 :=
  (us.filterMap (readingFor? id)).getLast?

/-- Some update is for the metric of this kind and id. -/
def Mention (kind : Kind) (id : String) (us : List Update) : Prop :=
  ∃ u ∈ us, u.value.kind = kind ∧ u.id = id

end Update

namespace LedgerHistoryLemmas

open Update

theorem mention_nil (kind : Kind) (id : String) : ¬ Mention kind id [] := by
  rintro ⟨u, hu, -⟩
  cases hu

theorem mention_cons {kind : Kind} {id : String} {u : Update} {us : List Update} :
    Mention kind id (u :: us) ↔ (u.value.kind = kind ∧ u.id = id) ∨ Mention kind id us := by
  constructor
  · rintro ⟨v, hv, h⟩
    rcases List.mem_cons.mp hv with rfl | hv
    · exact .inl h
    · exact .inr ⟨v, hv, h⟩
  · rintro (h | ⟨v, hv, h⟩)
    · exact ⟨u, List.mem_cons_self, h⟩
    · exact ⟨v, List.mem_cons_of_mem _ hv, h⟩

theorem counterSum_cons (id : String) (u : Update) (us : List Update) :
    counterSum id (u :: us) = deltaFor id u + counterSum id us := by
  simp [counterSum]

theorem lastReading?_cons (id : String) (u : Update) (us : List Update) :
    lastReading? id (u :: us) = (lastReading? id us).or (readingFor? id u) := by
  unfold lastReading?
  cases h : readingFor? id u with
  | none => simp [h]
  | some x => rw [List.filterMap_cons_some h, List.getLast?_cons]; cases (us.filterMap _).getLast? <;> rfl

/-- Nothing is added to a counter that no update is for. -/
theorem counterSum_eq_zero {id : String} {us : List Update} (h : ¬ Mention .counter id us) :
    counterSum id us = 0 := by
  induction us with
  | nil => rfl
  | cons u us ih =>
    rw [mention_cons, not_or] at h
    rw [counterSum_cons, ih h.2, Int.add_zero]
    obtain ⟨uid, value⟩ := u
    cases value with
    | gauge x => rfl
    | counter d => exact if_neg fun hid => h.1 ⟨rfl, hid⟩

theorem counterSum_of_perm {id : String} {us vs : List Update} (h : us.Perm vs) :
    counterSum id us = counterSum id vs := (h.map (deltaFor id)).sum_eq

theorem mention_of_perm {kind : Kind} {id : String} {us vs : List Update} (h : us.Perm vs) :
    Mention kind id us ↔ Mention kind id vs := by
  unfold Mention
  simp only [h.mem_iff]

end LedgerHistoryLemmas

/-! ## 2. The ledger after updates that were all accepted -/

namespace Ledger

open Update LedgerHistoryLemmas Classical in
/-- A counter that was written stands at its earlier total and the exact sum of the differences. -/
theorem counters_foldlM {l l' : Ledger} {us : List Update} (h : us.foldlM apply l = .ok l')
    (id : String) :
    (l'.counters.get? id).map Int64.toInt =
      if Mention .counter id us then
        some (((l.counters.get? id).getD 0).toInt + counterSum id us)
      else (l.counters.get? id).map Int64.toInt := by
  induction us generalizing l with
  | nil =>
    obtain rfl := Except.ok.inj h
    rw [if_neg (mention_nil _ _)]
  | cons u us ih =>
    rw [List.foldlM_cons] at h
    cases hu : l.apply u with
    | error e => rw [hu] at h; cases h
    | ok m =>
      rw [hu] at h
      -- The total after the first update is the one that the others are added to.
      have hm := counters_apply hu id
      have htotal : ((m.counters.get? id).getD 0).toInt =
          ((m.counters.get? id).map Int64.toInt).getD 0 := by
        cases m.counters.get? id <;> rfl
      have htotal' : ((l.counters.get? id).getD 0).toInt =
          ((l.counters.get? id).map Int64.toInt).getD 0 := by
        cases l.counters.get? id <;> rfl
      rw [ih h, htotal, hm, counterSum_cons]
      obtain ⟨uid, value⟩ := u
      cases value with
      | gauge x => simp [mention_cons, Value.kind, deltaFor, htotal']
      | counter d =>
        by_cases hid : uid = id
        · by_cases hus : Mention .counter id us
          · simp [mention_cons, Value.kind, deltaFor, hid, hus, Int.add_assoc]
          · simp [mention_cons, Value.kind, deltaFor, hid, hus, counterSum_eq_zero hus]
        · simp [mention_cons, Value.kind, deltaFor, hid, htotal']

open Update LedgerHistoryLemmas in
/-- A gauge stands at its last reading, or where it stood before. -/
theorem gauges_foldlM {l l' : Ledger} {us : List Update} (h : us.foldlM apply l = .ok l')
    (id : String) :
    l'.gauges.get? id = (lastReading? id us).or (l.gauges.get? id) := by
  induction us generalizing l with
  | nil =>
    obtain rfl := Except.ok.inj h
    rfl
  | cons u us ih =>
    rw [List.foldlM_cons] at h
    cases hu : l.apply u with
    | error e => rw [hu] at h; cases h
    | ok m =>
      rw [hu] at h
      rw [ih h, gauges_apply hu id, lastReading?_cons, Option.or_assoc]
      obtain ⟨uid, value⟩ := u
      cases value with
      | gauge x => by_cases hid : uid = id <;> simp [readingFor?, hid]
      | counter d => rfl

end Ledger

/-! ## 1. Histories -/

/-- A call that a store has answered. -/
structure StoreEvent : Type 1 where
  {α : Type}
  call : StoreCall α
  answer : Except StoreFault α

namespace StoreCall

/-- The updates that a call asks for, in order. Reading asks for none. -/
def writes : {α : Type} → StoreCall α → List Update
  | _, .setGauge id x => [⟨id, .gauge x⟩]
  | _, .addCounter id d => [⟨id, .counter d⟩]
  | _, .batch us => us
  | _, _ => []

/-- Whether a call asks for a change of the store. -/
def isWrite : {α : Type} → StoreCall α → Bool
  | _, .setGauge _ _ | _, .addCounter _ _ | _, .batch _ => true
  | _, _ => false

end StoreCall

namespace StoreEvent

/-- The call was refused. -/
def Failed (e : StoreEvent) : Prop := ∃ f, e.answer = .error f

/-- The call, if it is a write that succeeded. -/
def accepted? : StoreEvent → Option (StoreCall Unit)
  | ⟨.setGauge id x, .ok _⟩ => some (.setGauge id x)
  | ⟨.addCounter id d, .ok _⟩ => some (.addCounter id d)
  | ⟨.batch us, .ok _⟩ => some (.batch us)
  | _ => none

theorem accepted?_of_failed {e : StoreEvent} (h : e.Failed) : e.accepted? = none := by
  obtain ⟨f, hf⟩ := h
  obtain ⟨call, answer⟩ := e
  cases answer with
  | error => cases call <;> rfl
  | ok => cases hf

theorem accepted?_of_read {e : StoreEvent} (h : e.call.isWrite = false) :
    e.accepted? = none := by
  obtain ⟨call, answer⟩ := e
  cases call <;> first | rfl | cases h

/-- A write that succeeded counts as accepted. -/
theorem accepted?_of_isWrite {e : StoreEvent} (h : e.call.isWrite = true) (hok : ¬ e.Failed) :
    e.accepted?.isSome = true := by
  obtain ⟨call, answer⟩ := e
  cases answer with
  | error f => exact absurd ⟨f, rfl⟩ hok
  | ok => cases call <;> first | rfl | cases h

theorem writes_of_accepted? {e : StoreEvent} {c : StoreCall Unit}
    (h : e.accepted? = some c) : c.writes = e.call.writes := by
  obtain ⟨call, answer⟩ := e
  cases answer with
  | error f => cases call <;> cases h
  | ok =>
    cases call <;> first
      | (obtain rfl := Option.some.inj h; rfl)
      | cases h

end StoreEvent

/-- The calls of several clients in the order of their answers. -/
abbrev StoreHistory := List (Nat × StoreEvent)

namespace StoreHistory

/-- The writes that succeeded. -/
def successes (h : StoreHistory) : List (StoreCall Unit) := h.filterMap fun e => e.2.accepted?

/-- The updates of all successful writes, in order. -/
def written (h : StoreHistory) : List Update := h.successes.flatMap StoreCall.writes

end StoreHistory

namespace TaskPool

/-- The call that a client makes next, with its answer. -/
def event? (store : Store σ) (pool : TaskPool α σ) (client : Nat) : Option StoreEvent :=
  match pool.tasks[client]? with
  | some (.ask c _) => some ⟨c, (store.call c pool.state).1⟩
  | _ => none

theorem event?_of_ask {store : Store σ} {pool : TaskPool α σ} {client : Nat}
    {c : StoreCall β} {next : Except StoreFault β → StoreTask α}
    (h : pool.tasks[client]? = some (.ask c next)) :
    pool.event? store client = some ⟨c, (store.call c pool.state).1⟩ := by
  rw [event?, h]

/-- The calls of a schedule of turns. -/
def history (store : Store σ) (pool : TaskPool α σ) : List Nat → StoreHistory
  | [] => []
  | client :: turns =>
    ((pool.event? store client).map fun e => (client, e)).toList ++
      history store (pool.step store client) turns

end TaskPool

namespace LedgerHistoryLemmas

/-- A call leaves what it wrote, if it succeeded, and else nothing. -/
theorem foldlM_accepted (l : Ledger) (c : StoreCall β) :
    ((StoreEvent.accepted? ⟨c, (Ledger.store.call c l).1⟩).elim [] StoreCall.writes).foldlM
      Ledger.apply l = .ok (Ledger.store.call c l).2 := by
  cases c with
  | setGauge id x => rfl
  | addCounter id d =>
    simp only [Ledger.store, Ledger.answer]
    cases h : l.addCounter id d with
    | error e => rfl
    | ok m =>
      have hm : l.apply ⟨id, .counter d⟩ = .ok m := h
      simp only [StoreEvent.accepted?, Option.elim, StoreCall.writes, List.foldlM_cons, hm]
      rfl
  | batch us =>
    simp only [Ledger.store, Ledger.answer]
    cases h : l.applyAll us with
    | error e => rfl
    | ok m =>
      rw [Ledger.applyAll_eq_foldlM] at h
      exact h
  | gauge id => rfl
  | counter id => rfl
  | gauges => rfl
  | counters => rfl
  | ping => rfl

theorem written_append (h k : StoreHistory) : (h ++ k).written = h.written ++ k.written := by
  simp [StoreHistory.written, StoreHistory.successes]

/-- One turn, with the updates that its call wrote. -/
theorem foldlM_step (pool : TaskPool α Ledger) (client : Nat) :
    (StoreHistory.written ((pool.event? Ledger.store client).map fun e => (client, e)).toList).foldlM
      Ledger.apply pool.state = .ok (pool.step Ledger.store client).state := by
  simp only [TaskPool.event?, TaskPool.step]
  cases pool.tasks[client]? with
  | none => rfl
  | some t =>
    cases t with
    | done answer => rfl
    | ask c k =>
      have h := foldlM_accepted pool.state c
      simp only [StoreHistory.written, StoreHistory.successes, Option.map, Option.toList,
        List.filterMap_cons, List.filterMap_nil]
      cases ha : StoreEvent.accepted? ⟨c, (Ledger.store.call c pool.state).1⟩ with
      | none => rw [ha] at h; exact h
      | some d => rw [ha] at h; simpa using h

end LedgerHistoryLemmas

open LedgerHistoryLemmas in
/-- A run of calls leaves what the writes that succeeded would leave on their own. -/
theorem foldlM_apply_written (pool : TaskPool α Ledger) (turns : List Nat) :
    (pool.history Ledger.store turns).written.foldlM Ledger.apply pool.state =
      .ok (pool.run Ledger.store turns).state := by
  induction turns generalizing pool with
  | nil => rfl
  | cons client turns ih =>
    rw [TaskPool.history, written_append, List.foldlM_append, foldlM_step]
    exact ih (pool.step Ledger.store client)

/-! ## 3. A ledger that started empty -/

namespace LedgerHistoryLemmas

open Update

section
variable {l : Ledger} {us : List Update} (h : us.foldlM Ledger.apply .empty = .ok l)
include h

open Classical in
theorem counter_eq (id : String) :
    (l.counters.get? id).map Int64.toInt =
      if Mention .counter id us then some (counterSum id us) else none := by
  rw [Ledger.counters_foldlM h id]
  simp [Ledger.empty]

theorem counter_eq_some_iff (id : String) (sum : Int) :
    (l.counters.get? id).map Int64.toInt = some sum ↔
      Mention .counter id us ∧ sum = counterSum id us := by
  classical
  rw [counter_eq h id]
  by_cases hm : Mention .counter id us
  · rw [if_pos hm, Option.some.injEq]
    exact ⟨fun hsum => ⟨hm, hsum.symm⟩, fun hsum => hsum.2.symm⟩
  · simp [hm]

theorem gauge_eq (id : String) : l.gauges.get? id = lastReading? id us := by
  rw [Ledger.gauges_foldlM h id]
  simp [Ledger.empty]

theorem counterSum_mem_range {id : String} (hm : Mention .counter id us) :
    -0x8000000000000000 ≤ counterSum id us ∧ counterSum id us < 0x8000000000000000 := by
  have hsum := (counter_eq_some_iff h id _).mpr ⟨hm, rfl⟩
  obtain ⟨d, -, hd⟩ := Option.map_eq_some_iff.mp hsum
  rw [← hd]
  exact ⟨d.le_toInt, d.toInt_lt⟩

end

theorem lastReading?_isSome_iff (id : String) (us : List Update) :
    (lastReading? id us).isSome ↔ Mention .gauge id us := by
  induction us with
  | nil =>
    constructor
    · intro h
      cases h
    · intro h
      exact absurd h (mention_nil _ _)
  | cons u us ih =>
    rw [lastReading?_cons, mention_cons, Option.isSome_or, Bool.or_eq_true, ih, or_comm]
    obtain ⟨uid, value⟩ := u
    cases value with
    | gauge x => by_cases hid : uid = id <;> simp [readingFor?, Value.kind, hid]
    | counter d => simp [readingFor?, Value.kind]

theorem known_iff {l : Ledger} {us : List Update}
    (h : us.foldlM Ledger.apply .empty = .ok l) (kind : Kind) (id : String) :
    (l.get? kind id).isSome ↔ Mention kind id us := by
  classical
  cases kind with
  | gauge =>
    rw [← lastReading?_isSome_iff, ← gauge_eq h id]
    simp [Ledger.get?]
  | counter =>
    have hc := counter_eq h id
    have : (l.get? .counter id).isSome = ((l.counters.get? id).map Int64.toInt).isSome := by
      simp [Ledger.get?]
    rw [this, hc]
    by_cases hm : Mention .counter id us <;> simp [hm]

/-- A turn whose call wrote nothing leaves the ledger as it was. -/
theorem state_step_of_not_accepted {pool : TaskPool α Ledger} {client : Nat} {e : StoreEvent}
    (he : pool.event? Ledger.store client = some e) (ha : e.accepted? = none) :
    (pool.step Ledger.store client).state = pool.state := by
  have h := foldlM_step pool client
  rw [he] at h
  simp only [StoreHistory.written, StoreHistory.successes, Option.map, Option.toList,
    List.filterMap_cons, ha, List.filterMap_nil, List.flatMap_nil, List.foldlM_nil] at h
  exact (Except.ok.inj h).symm

/-- The counters depend on what was written, but not on the order. -/
theorem counters_of_perm {l m : Ledger} {us vs : List Update}
    (hl : us.foldlM Ledger.apply .empty = .ok l) (hm : vs.foldlM Ledger.apply .empty = .ok m)
    (h : us.Perm vs) : l.counters = m.counters := by
  classical
  refine Table.ext_get? fun id => ?_
  have hinj : Function.Injective (Option.map Int64.toInt) :=
    Option.map_injective fun _ _ => Int64.toInt_inj.mp
  apply hinj
  rw [counter_eq hl id, counter_eq hm id]
  simp only [mention_of_perm h, counterSum_of_perm h]

end LedgerHistoryLemmas

open Update LedgerHistoryLemmas in
/-- Clients of any number and any behaviour share a ledger that starts empty. At every point of
every interleaving of their calls, with `us` the updates of the calls that succeeded so far:

* the ledger is what `us` alone leave;
* a counter is known exactly if `us` mention it, it is the exact sum of its differences in `us`,
  and that sum is in the range of counters;
* a gauge is at its last reading in `us`;
* a call that fails or only reads leaves the ledger as it was;
* another course of calls, of whatever clients, in which the same writes succeed in any order has
  the same counters. -/
theorem ledger_of_history (clients : List (StoreTask α)) (turns : List Nat) :
    let start : TaskPool α Ledger := ⟨.empty, clients⟩
    let pool := start.run Ledger.store turns
    let us := (start.history Ledger.store turns).written
    us.foldlM Ledger.apply .empty = .ok pool.state ∧
    (∀ id sum, (pool.state.counters.get? id).map Int64.toInt = some sum ↔
      Mention .counter id us ∧ sum = counterSum id us) ∧
    (∀ id, Mention .counter id us →
      -0x8000000000000000 ≤ counterSum id us ∧ counterSum id us < 0x8000000000000000) ∧
    (∀ id, pool.state.gauges.get? id = lastReading? id us) ∧
    (∀ kind id, (pool.state.get? kind id).isSome ↔ Mention kind id us) ∧
    (∀ client e, pool.event? Ledger.store client = some e →
      e.Failed ∨ e.call.isWrite = false →
      (pool.step Ledger.store client).state = pool.state) ∧
    (∀ {β : Type} (clients' : List (StoreTask β)) (turns' : List Nat),
      let start' : TaskPool β Ledger := ⟨.empty, clients'⟩
      (start'.history Ledger.store turns').successes.Perm
        (start.history Ledger.store turns).successes →
      (start'.run Ledger.store turns').state.counters = pool.state.counters) := by
  intro start pool us
  have hrun : us.foldlM Ledger.apply .empty = .ok pool.state := foldlM_apply_written start turns
  refine ⟨hrun, counter_eq_some_iff hrun, fun id => counterSum_mem_range hrun, gauge_eq hrun,
    known_iff hrun, ?_, ?_⟩
  · intro client e he hleaves
    apply state_step_of_not_accepted he
    rcases hleaves with hfailed | hread
    · exact StoreEvent.accepted?_of_failed hfailed
    · exact StoreEvent.accepted?_of_read hread
  · intro β clients' turns' start' hsame
    exact counters_of_perm (foldlM_apply_written start' turns') hrun
      (hsame.flatMap_right StoreCall.writes)

/-- A batch that overflows at its second update leaves no trace of its first. -/
theorem ledger_of_history_failing_batch :
    let us : List Update := [⟨"c", .counter Int64.maxValue⟩, ⟨"c", .counter 1⟩]
    let start : TaskPool Unit Ledger := ⟨.empty, [.single (.batch us)]⟩
    (Ledger.store.call (.batch us) .empty).1 = .error (.overflow "c" Int64.maxValue 1) ∧
      (start.step Ledger.store 0).state = .empty := by
  intro us start
  have hfails : (Ledger.store.call (.batch us) .empty).1 =
      .error (.overflow "c" Int64.maxValue 1) := by decide +kernel
  have htask : start.tasks[0]? = some (.single (.batch us)) := rfl
  clear_value us
  exact ⟨hfails, (ledger_of_history start.tasks []).2.2.2.2.2.1 0 _
    (TaskPool.event?_of_ask htask) (.inl ⟨_, hfails⟩)⟩

end Metering
