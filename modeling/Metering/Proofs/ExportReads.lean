import Metering.Proofs.PoolRuns

/-!
What a listing of a busy ledger shows.

A listing takes the gauges in one call and the counters in a second one, and other tasks may write
in between. So it shows the gauges of one ledger and the counters of a later one. It shows a single
ledger if what is written in between is all of one kind, and a batch of both kinds that falls in
between is shown by its counters alone (`torn_listing`).

Results:
1. `ofStore_listing_andThen`, `saveTask_andThen`: the steps of a listing and of a save.
2. `listStage_of_le`: where a task that lists can be, at every point of every course of events.
3. `shown_single`: when the two calls show one ledger.
4. `export_reads`: what is answered, and what is handed over to be saved.
-/
namespace Metering

/-! ## 1. The steps of a listing -/

namespace ServerTask

/-- The rest of a listing that has the gauges. -/
def countThen (gauges : Table Binary64)
    (next : Except StoreFault (List Metric) → ServerTask α) : ServerTask α :=
  .step (.store .counters) fun
    | .ok counters => next (.ok (Ledger.records gauges.entries counters.entries))
    | .error e => next (.error e)

/-- A listing that goes on with what it has read. -/
def listThen (next : Except StoreFault (List Metric) → ServerTask α) : ServerTask α :=
  .step (.store .gauges) fun
    | .ok gauges => countThen gauges next
    | .error e => next (.error e)

theorem ofStore_listing_andThen (next : Except StoreFault (List Metric) → ServerTask α) :
    (ofStore StoreTask.listing).andThen next = listThen next := by
  refine congrArg (ServerTask.step (.store .gauges)) (funext fun r => ?_)
  cases r with
  | error e => rfl
  | ok gauges =>
    refine congrArg (ServerTask.step (.store .counters)) (funext fun r => ?_)
    cases r <;> rfl

end ServerTask

open ServerTask

/-- The rest of a save that has a listing. -/
def SnapshotFile.handThen (file : SnapshotFile) (next : Except StoreFault Nat → ServerTask α) :
    Except StoreFault (List Metric) → ServerTask α
  | .error e => .step .endSave fun _ => next (.error e)
  | .ok ms => .step (.replaceFile file ms) fun r =>
      .step .endSave fun _ => next (r.map fun _ => ms.length)

theorem SnapshotFile.saveTask_andThen (file : SnapshotFile)
    (next : Except StoreFault Nat → ServerTask α) :
    file.saveTask.andThen next = .step .beginSave fun _ => listThen (file.handThen next) := by
  refine congrArg (ServerTask.step .beginSave) (funext fun _ => ?_)
  rw [andThen_assoc, ofStore_listing_andThen]
  refine congrArg listThen (funext fun r => ?_)
  cases r <;> rfl

/-- A step that hands nothing over but these metrics. -/
def ServerStep.Hands (ms : List Metric) : {β : Type} → ServerStep β → Prop
  | _, .replaceFile _ ms' => ms' = ms
  | _, _ => True

/-- Whatever its steps are answered, the task hands nothing over but these metrics, and its own
answer is a good one. -/
def ServerTask.KeepsTo (ms : List Metric) (Good : α → Prop) : ServerTask α → Prop
  | .done a => Good a
  | .step st next => st.Hands ms ∧ ∀ r, KeepsTo ms Good (next r)

/-- The metrics that a task is about to hand over. -/
def ServerTask.handed? : ServerTask α → Option (List Metric)
  | .step (.replaceFile _ ms) _ => some ms
  | _ => none

theorem ServerTask.eq_of_handed? {ms ms' : List Metric} {Good : α → Prop} {task : ServerTask α}
    (h : task.KeepsTo ms Good) (hhanded : task.handed? = some ms') : ms' = ms := by
  cases task with
  | done a => cases hhanded
  | step st next =>
    cases st with
    | replaceFile file given =>
      obtain rfl := Option.some.inj hhanded
      exact h.1
    | _ => cases hhanded

namespace ServerPool

/-- A task takes the gauges at one point and the counters at a later one. -/
structure ListsAt (start : ServerPool α Ledger) (moves : List (PoolMove α)) (k g c : Nat) :
    Prop where
  gauges : start.EventAt moves g k ⟨.gauges, .ok (start.ledgerAt moves g).gauges⟩
  counters : start.EventAt moves c k ⟨.counters, .ok (start.ledgerAt moves c).counters⟩
  order : g < c

/-- What a listing shows that takes the gauges and the counters at these points. -/
def shown (start : ServerPool α Ledger) (moves : List (PoolMove α)) (g c : Nat) : List Metric :=
  Ledger.records (start.ledgerAt moves g).gauges.entries (start.ledgerAt moves c).counters.entries

/-- Where a task can be that lists, perhaps after it has got the right to save. -/
inductive ListStage (start : ServerPool α Ledger) (moves : List (PoolMove α)) (k : Nat)
    (next : Except StoreFault (List Metric) → ServerTask α) (Good : List Metric → α → Prop)
    (n : Nat) : PoolTask α → Prop
  | entering : ListStage start moves k next Good n
      (.running (.step .beginSave fun _ => listThen next))
  | asking : ListStage start moves k next Good n (.running (listThen next))
  | counting {g : Nat} :
      start.EventAt moves g k ⟨.gauges, .ok (start.ledgerAt moves g).gauges⟩ → g < n →
      ListStage start moves k next Good n
        (.running (countThen (start.ledgerAt moves g).gauges next))
  | listed {g c : Nat} {task : ServerTask α} :
      start.ListsAt moves k g c → c < n →
      task.KeepsTo (start.shown moves g c) (Good (start.shown moves g c)) →
      ListStage start moves k next Good n (.running task)
  | cancelled : ListStage start moves k next Good n .cancelled

section
variable {start : ServerPool α Ledger} {moves : List (PoolMove α)} {k : Nat}
  {next : Except StoreFault (List Metric) → ServerTask α} {Good : List Metric → α → Prop}

/-! ## 2. The course of a listing -/

theorem ListStage.mono {n n' : Nat} (hle : n ≤ n') {t : PoolTask α}
    (h : ListStage start moves k next Good n t) : ListStage start moves k next Good n' t := by
  cases h with
  | entering => exact .entering
  | asking => exact .asking
  | counting hg hlt => exact .counting hg (Nat.lt_of_lt_of_le hlt hle)
  | listed hlists hlt hkeeps => exact .listed hlists (Nat.lt_of_lt_of_le hlt hle) hkeeps
  | cancelled => exact .cancelled

/-- One move: the gauges are taken, then the counters, and then what follows keeps to them. -/
theorem ListStage.succ (hnext : ∀ ms, (next (.ok ms)).KeepsTo ms (Good ms)) {n : Nat}
    {m : PoolMove α} (hm : moves[n]? = some m) {t t' : PoolTask α}
    (ht : (start.before moves n).tasks[k]? = some t)
    (h : ListStage start moves k next Good n t)
    (hstep : TaskStep (start.before moves n) m k t t') :
    ListStage start moves k next Good (n + 1) t' := by
  cases hstep with
  | same => exact h.mono (Nat.le_succ n)
  | cancelled => exact .cancelled
  | answered htask hanswers =>
    cases h with
    | entering =>
      cases htask
      exact .asking
    | asking =>
      cases htask
      obtain ⟨rfl, rfl⟩ := hanswers
      exact .counting ⟨hm, event?_of_store ht⟩ (Nat.lt_succ_self n)
    | counting hg hlt =>
      cases htask
      obtain ⟨rfl, rfl⟩ := hanswers
      exact .listed ⟨hg, ⟨hm, event?_of_store ht⟩, hlt⟩ (Nat.lt_succ_self n) (hnext _)
    | listed hlists hlt hkeeps =>
      cases htask
      exact .listed hlists (Nat.lt_succ_of_lt hlt) (hkeeps.2 _)
    | cancelled => cases htask

/-- From its start on, a task that lists is at one of these stages. -/
theorem listStage_of_le (hnext : ∀ ms, (next (.ok ms)).KeepsTo ms (Good ms)) {task : ServerTask α}
    (htask : task = listThen next ∨ task = .step .beginSave fun _ => listThen next)
    {n₀ n : Nat} (hstart : start.StartsAt moves n₀ k task) (hle : n₀ + 1 ≤ n) :
    ∃ t, (start.before moves n).tasks[k]? = some t ∧ ListStage start moves k next Good n t := by
  refine stage_of_le (ListStage start moves k next Good) (task_of_startsAt hstart) ?_
    (fun n t => ListStage.mono (Nat.le_succ n)) ?_ hle
  · rcases htask with rfl | rfl
    · exact .asking
    · exact .entering
  · exact fun n m t t' _ hm ht hstage hstep => hstage.succ hnext hm ht hstep

/-- What has been handed over by a task that lists is what its two calls show. -/
theorem handed_shown (hnext : ∀ ms, (next (.ok ms)).KeepsTo ms (Good ms)) {task : ServerTask α}
    (htask : task = listThen next ∨ task = .step .beginSave fun _ => listThen next)
    {n₀ : Nat} (hstart : start.StartsAt moves n₀ k task) (hwrites : start.writes = [])
    {n : Nat} {w : FileWrite} (hw : w ∈ (start.before moves n).writes) (hk : w.owner = k) :
    ∃ g c, start.ListsAt moves k g c ∧ c < n ∧ w.metrics = start.shown moves g c := by
  induction n with
  | zero =>
    rw [before_zero, hwrites] at hw
    cases hw
  | succ n ih =>
    have hlater (h : w ∈ (start.before moves n).writes) :
        ∃ g c, start.ListsAt moves k g c ∧ c < n + 1 ∧ w.metrics = start.shown moves g c := by
      obtain ⟨g, c, hlists, hlt, hshown⟩ := ih h
      exact ⟨g, c, hlists, Nat.lt_succ_of_lt hlt, hshown⟩
    cases hm : moves[n]? with
    | none => exact hlater (before_succ_of_none hm ▸ hw)
    | some m =>
      rw [before_succ hm] at hw
      rcases mem_writes_step hw with hw | ⟨rfl, rest, hrest⟩
      · exact hlater hw
      · rw [hk] at hrest
        -- The task hands a write over, so it is there, and it was started before.
        have hlt : n₀ + 1 ≤ n := lt_of_startsAt hstart (List.getElem?_eq_some_iff.mp hrest).1
        obtain ⟨t, ht, hstage⟩ := listStage_of_le hnext htask hstart hlt
        have hhanded : ∀ task, t = .running task → task.handed? = some w.metrics := by
          intro task h
          obtain rfl := PoolTask.running.inj (h.symm.trans (Option.some.inj (ht.symm.trans hrest)))
          rfl
        cases hstage with
        | entering => cases hhanded _ rfl
        | asking => cases hhanded _ rfl
        | counting => cases hhanded _ rfl
        | listed hlists hlt hkeeps =>
          exact ⟨_, _, hlists, Nat.lt_succ_of_lt hlt, eq_of_handed? hkeeps (hhanded _ rfl)⟩
        | cancelled => cases ht.symm.trans hrest

/-- A task does nothing before it is started. -/
theorem lt_of_eventAt {n₀ n : Nat} {task : ServerTask α} {e : StoreEvent}
    (hstart : start.StartsAt moves n₀ k task) (h : start.EventAt moves n k e) : n₀ < n :=
  lt_of_startsAt hstart (lt_length_of_eventAt h)

/-- What a task answers that lists is good for what its two calls show. -/
theorem answer_shown (hnext : ∀ ms, (next (.ok ms)).KeepsTo ms (Good ms))
    {n₀ : Nat} (hstart : start.StartsAt moves n₀ k (listThen next)) {a : α}
    (ha : (start.run Ledger.store moves).answers[k]? = some (some a)) :
    ∃ g c, start.ListsAt moves k g c ∧ Good (start.shown moves g c) a := by
  have hlt : n₀ < moves.length := (List.getElem?_eq_some_iff.mp hstart.1).1
  obtain ⟨t, ht, hstage⟩ := listStage_of_le hnext (.inl rfl) hstart hlt
  rw [before_length] at ht
  rw [answers, List.getElem?_map, ht] at ha
  have ha : t.answer? = some a := Option.some.inj ha
  cases hstage with
  | entering => cases ha
  | asking => cases ha
  | counting => cases ha
  | @listed g c task hlists _ hkeeps =>
    cases task with
    | step st rest => cases ha
    | done b =>
      obtain rfl := Option.some.inj ha
      exact ⟨g, c, hlists, hkeeps⟩
  | cancelled => cases ha

/-! ## 3. One ledger -/

/-- If nothing is accepted between the two calls but updates of one kind, they show one ledger. -/
theorem shown_single {g c : Nat} (h : g ≤ c) :
    ((∀ u ∈ start.writtenBetween moves g c, u.value.kind = .counter) →
      start.shown moves g c = (start.ledgerAt moves c).toRecords) ∧
    ((∀ u ∈ start.writtenBetween moves g c, u.value.kind = .gauge) →
      start.shown moves g c = (start.ledgerAt moves g).toRecords) := by
  have hfold := foldlM_writtenBetween start moves h
  refine ⟨fun hkind => ?_, fun hkind => ?_⟩
  · rw [shown, ← Ledger.gauges_of_counters_only hfold hkind]
    rfl
  · rw [shown, Ledger.counters_of_gauges_only hfold hkind]
    rfl

end

/-! ## 4. Exports -/

theorem keepsTo_handThen (file : SnapshotFile) (f : Except StoreFault Nat → α) (ms : List Metric) :
    (file.handThen (fun r => .done (f r)) (.ok ms)).KeepsTo ms fun _ => True :=
  ⟨rfl, fun _ => ⟨trivial, fun _ => trivial⟩⟩

/-- An export among any other tasks, cancelled ones included. A listing that is answered, and a
save that hands its listing over, takes the gauges at one point and the counters at a later one,
both of them after its start.

Of two such points, with the updates that the ledger accepted before the first and in between:
the first ledger is the fold of the former, and the second one the fold of all of them. So the
export shows of every batch that was accepted before the first point both kinds, of one after the
second point neither, and of one in between its counters alone. It shows a single ledger if the
updates in between are all of one kind, so also if there are none. -/
theorem export_reads (s : ServerState Ledger) (moves : List (PoolMove α)) (n₀ k : Nat) :
    let start : ServerPool α Ledger := .ofState s
    (∀ f : Except StoreFault (List Metric) → α,
      start.StartsAt moves n₀ k ((ofStore StoreTask.listing).map f) →
      ∀ a, (start.run Ledger.store moves).answers[k]? = some (some a) →
        ∃ g c, n₀ < g ∧ start.ListsAt moves k g c ∧ a = f (.ok (start.shown moves g c))) ∧
    (∀ (file : SnapshotFile) (f : Except StoreFault Nat → α),
      start.StartsAt moves n₀ k (file.saveTask.map f) →
      ∀ n w, start.LandsAt moves n w → w.owner = k →
        ∃ g c, n₀ < g ∧ c < n ∧ start.ListsAt moves k g c ∧
          w.metrics = start.shown moves g c) ∧
    (∀ g c, start.ListsAt moves k g c →
      let earlier := start.written (moves.take g)
      let between := start.writtenBetween moves g c
      earlier.foldlM Ledger.apply s.store = .ok (start.ledgerAt moves g) ∧
      (earlier ++ between).foldlM Ledger.apply s.store = .ok (start.ledgerAt moves c) ∧
      start.written (moves.take c) = earlier ++ between ∧
      ((∀ u ∈ between, u.value.kind = .counter) →
        start.shown moves g c = (start.ledgerAt moves c).toRecords) ∧
      ((∀ u ∈ between, u.value.kind = .gauge) →
        start.shown moves g c = (start.ledgerAt moves g).toRecords)) := by
  intro start
  refine ⟨?_, ?_, ?_⟩
  · intro f hstart a ha
    have htask : (ofStore StoreTask.listing).map f = listThen fun r => .done (f r) :=
      ofStore_listing_andThen _
    rw [htask] at hstart
    have hanswers : ∀ ms, (ServerTask.done (f (.ok ms))).KeepsTo ms (· = f (.ok ms)) :=
      fun ms => rfl
    obtain ⟨g, c, hlists, rfl⟩ := answer_shown hanswers hstart ha
    exact ⟨g, c, lt_of_eventAt hstart hlists.gauges, hlists, rfl⟩
  · rintro file f hstart n w ⟨i, -, hw⟩ hk
    have htask := SnapshotFile.saveTask_andThen file fun r => .done (f r)
    obtain ⟨g, c, hlists, hlt, hshown⟩ := handed_shown
      (keepsTo_handThen file f) (.inr htask) hstart rfl (List.mem_of_getElem? hw) hk
    exact ⟨g, c, lt_of_eventAt hstart hlists.gauges, hlt, hlists, hshown⟩
  · intro g c hlists earlier between
    have hle := Nat.le_of_lt hlists.order
    have hall : start.written (moves.take c) = earlier ++ between := written_take hle
    refine ⟨foldlM_written start _, ?_, hall, shown_single hle⟩
    rw [← hall]
    exact foldlM_written start _

/-- What a save that nobody disturbs hands over was read in its second and its third turn. -/
theorem export_reads_saved :
    let file : SnapshotFile := ⟨"metrics.json"⟩
    let s : ServerState Ledger := ⟨Ledger.empty.setGauge "g" .zero, ⟨.empty⟩, [], 0⟩
    let start : ServerPool (Except StoreFault Nat) Ledger := .ofState s
    let moves : List (PoolMove (Except StoreFault Nat)) :=
      [.start (file.saveTask.map id), .turn 0, .turn 0, .turn 0, .turn 0, .land 0]
    ∃ g c, 0 < g ∧ c < 5 ∧ start.ListsAt moves 0 g c ∧
      [Metric.ofUpdate ⟨"g", .gauge .zero⟩] = start.shown moves g c := by
  intro file s start moves
  have hlands : start.LandsAt moves 5 ⟨0, file, [Metric.ofUpdate ⟨"g", .gauge .zero⟩]⟩ :=
    ⟨0, rfl, by decide +kernel⟩
  exact (export_reads s moves 0 0).2.1 file id ⟨rfl, rfl⟩ 5 _ hlands rfl

/-- A batch between the two calls is shown by its counter, without its gauge, so the listing shows
no ledger that there was. -/
theorem torn_listing :
    let batch : StoreTask Unit := .single (.batch [⟨"g", .gauge .zero⟩, ⟨"c", .counter 1⟩])
    let start : ServerPool (Except StoreFault (List Metric)) Ledger :=
      .ofState ⟨.empty, ⟨.empty⟩, [], 0⟩
    let moves : List (PoolMove (Except StoreFault (List Metric))) :=
      [.start ((ofStore StoreTask.listing).map id), .start ((ofStore batch).map fun _ => .ok []),
        .turn 0, .turn 1, .turn 0]
    let listed : List Metric := [⟨"c", .counter, some 1, none⟩]
    (start.run Ledger.store moves).answers[0]? = some (some (.ok listed)) ∧
      ∀ n, listed ≠ (start.ledgerAt moves n).toRecords := by
  intro batch start moves listed
  refine ⟨by decide +kernel, fun n => ?_⟩
  have hfew : ∀ n < 6, listed ≠ (start.ledgerAt moves n).toRecords := by decide +kernel
  by_cases hn : n < 6
  · exact hfew n hn
  · have hlast : start.ledgerAt moves n = start.ledgerAt moves 5 := by
      unfold ledgerAt before
      rw [List.take_of_length_le (show moves.length ≤ n from Nat.le_of_lt (Nat.le_of_not_lt hn)),
        List.take_of_length_le (show moves.length ≤ 5 from Nat.le_refl 5)]
    rw [hlast]
    exact hfew 5 (by decide)

end ServerPool
end Metering
