import Metering.Proofs.WriteDialogues
import Metering.Server.Serving

/-!
The audit trail is exactly the writes.

Two histories are compared: what the store has accepted, and what has been published. Both are
written down as deeds, each with the task that did it, in one list for a whole course of events
(`ServerPool.trail`). An event is published after its write, with a save in between that can fail
or take long, and other tasks do their deeds meanwhile. So the histories are compared task by task
(`Account`): a request or a call has done nothing, or it has written what it was asked to write
and is still under way, or it has also published the one event that names all of it, and its answer
acknowledges the write. There is one other way out. A client that leaves during the save takes the
rest of its request with it: then the write stands, and there is no event, now or ever.

Nothing is assumed of the store but that it answers calls, and nothing of the disk.

Results:
1. `ServerTask.Throughout`: what holds of the deeds at every point of a dialogue.
2. `Dialogue.throughout`: a request or a call accounts for its deeds, whatever its steps are
   answered.
3. `ServerPool.happens`: what a move can come to. So tasks do their own deeds (`exists_advance`),
   listeners receive what is published (`delivered_run`), a task that is over does nothing more
   (`deedsOf_trail_of_hasEnded`), and a task is left by the move that leaves it
   (`cancelled_of_run`).
4. `ServicePast.step`, `ServicePast.run`: every task of a service accounts for its deeds.
5. `Trail.place_lt`: deeds of requests that are handled one after another.
6. `Ingest.audit_trail_exact`: the audit trail of a course of events.
7. `Ingest.abandoned_write_unpublished`: a write without an event.
-/
namespace Metering

/-! ## 1. Deeds of dialogues -/

/-- Where a task stands. -/
inductive Standing (α : Type)
  | underWay
  /-- Its client has left before there was an answer. -/
  | left
  | answered (a : α)

/-- What counts in an audit: that the store has accepted a write, or that an event has been
published. -/
inductive Deed
  | wrote (us : List Update)
  | published (e : AuditEvent)
deriving DecidableEq

namespace ServerStep

/-- What has been done with a step, by its answer. -/
def deeds (time : Int64) : {β : Type} → ServerStep β → β → List Deed
  | _, .store c, .ok _ => if c.isWrite then [.wrote c.writes] else []
  | _, .publish ids source, _ => [.published ⟨time, ids, source⟩]
  | _, _, _ => []

theorem deeds_of_not_changes {s : ServerStep β} (h : s.changes = false) (time : Int64) (r : β) :
    s.deeds time r = [] := by
  cases s with
  | store c =>
    cases r with
    | error e => rfl
    | ok a => exact if_neg (Bool.eq_false_iff.mp h)
  | beginSave => rfl
  | replaceFile file ms => rfl
  | endSave => rfl
  | publish ids source => cases h

end ServerStep

namespace ServerTask

variable {time : Int64}

/-- At every point of the task, whatever its steps are answered, this holds of all deeds so far and
of where the task stands. -/
def Throughout (time : Int64) (P : List Deed → Standing α → Prop) : ServerTask α → List Deed → Prop
  | .done a, past => P past (.answered a)
  | .step s next, past =>
    P past .underWay ∧ ∀ r, (next r).Throughout time P (past ++ s.deeds time r)

/-- No step of the task does anything that counts. -/
def Quiet : ServerTask α → Prop
  | .done _ => True
  | .step s next => (∀ time r, s.deeds time r = []) ∧ ∀ r, (next r).Quiet

theorem quiet_of_not_touches {t : ServerTask α} (h : ¬ t.Touches) : t.Quiet := by
  induction t with
  | done a => trivial
  | step s next ih =>
    have hs : s.changes = false := Bool.eq_false_iff.mpr fun hc => h (.inl hc)
    exact ⟨ServerStep.deeds_of_not_changes hs, fun r => ih r fun hr => h (.inr ⟨r, hr⟩)⟩

theorem quiet_andThen {t : ServerTask α} {next : α → ServerTask β} (ht : t.Quiet)
    (hnext : ∀ a, (next a).Quiet) : (t.andThen next).Quiet := by
  induction t with
  | done a => exact hnext a
  | step s k ih => exact ⟨ht.1, fun r => ih r (ht.2 r)⟩

theorem not_touches_listing : ¬ (ofStore StoreTask.listing).Touches := by
  rintro (hc | ⟨gauges, hrest⟩)
  · cases hc
  · cases gauges with
    | error e => exact hrest
    | ok gauges =>
      rcases hrest with hc | ⟨counters, hrest⟩
      · cases hc
      · cases counters <;> exact hrest

/-- A save replaces the file, which does not count. -/
theorem quiet_saveTask (file : SnapshotFile) : file.saveTask.Quiet := by
  refine ⟨fun _ _ => rfl, fun _ => ?_⟩
  refine quiet_andThen (quiet_of_not_touches not_touches_listing) fun listed => ?_
  cases listed with
  | error e => exact ⟨fun _ _ => rfl, fun _ => trivial⟩
  | ok ms => exact ⟨fun _ _ => rfl, fun _ => ⟨fun _ _ => rfl, fun _ => trivial⟩⟩

section
variable {P : List Deed → Standing β → Prop} {past : List Deed}

/-- While a task does nothing that counts, all that can be lost is that the answer is still to
come. -/
theorem throughout_andThen {t : ServerTask α} {next : α → ServerTask β} (ht : t.Quiet)
    (hwait : P past .underWay) (hnext : ∀ a, (next a).Throughout time P past) :
    (t.andThen next).Throughout time P past := by
  induction t with
  | done a => exact hnext a
  | step s k ih =>
    refine ⟨hwait, fun r => ?_⟩
    rw [ht.1, List.append_nil]
    exact ih r (ht.2 r)

theorem throughout_map {t : ServerTask α} {f : α → β} (ht : t.Quiet) (hwait : P past .underWay)
    (hanswer : ∀ a, P past (.answered (f a))) : (t.map f).Throughout time P past :=
  throughout_andThen ht hwait hanswer

end
end ServerTask

/-! ## 2. Requests and calls account for their deeds -/

/-- How a request or a call accounts for its deeds: there are none, and no answer acknowledges a
write; or it has written what it was asked to write, and is still under way; or it has written that,
and its client has left; or it has then published the event that names all of it in order, and the
answer acknowledges the write. -/
inductive Account (source : Option String) (Asked : List Update → Prop) (Acks : α → Prop)
    (time : Int64) : List Deed → Standing α → Prop
  | nothing {standing : Standing α} : (∀ a, standing = .answered a → ¬ Acks a) →
      Account source Asked Acks time [] standing
  | written {us : List Update} : Asked us → Account source Asked Acks time [.wrote us] .underWay
  | abandoned {us : List Update} : Asked us → Account source Asked Acks time [.wrote us] .left
  | announced {us : List Update} {a : α} : Asked us → Acks a →
      Account source Asked Acks time
        [.wrote us, .published ⟨time, us.map Update.id, source.getD ""⟩] (.answered a)

section
variable {source : Option String} {Asked : List Update → Prop} {Acks : α → Prop} {time : Int64}

theorem Account.waiting : Account source Asked Acks time [] .underWay :=
  .nothing fun _ h => nomatch h

theorem Account.refused {a : α} (h : ¬ Acks a) : Account source Asked Acks time [] (.answered a) :=
  .nothing fun b hb => by
    obtain rfl : a = b := by injection hb
    exact h

/-- A client can leave at any point before the answer. -/
theorem Account.leave {ds : List Deed} (h : Account source Asked Acks time ds .underWay) :
    Account source Asked Acks time ds .left := by
  cases h with
  | nothing => exact .nothing fun _ h => nomatch h
  | written hus => exact .abandoned hus

end

open ServerTask

/-- What follows a write publishes one event, whether a save comes first or not, and however that
save ends. -/
theorem Service.throughout_afterWrite {v : Service} (haudits : v.audits = true)
    {P : List Deed → Standing α → Prop} {past : List Deed} {time : Int64} {ids : List String}
    {source : Option String} {f : Unit → α} (hwait : P past .underWay)
    (hend : P (past ++ [.published ⟨time, ids, source.getD ""⟩]) (.answered (f ()))) :
    ((v.afterWrite ids source).map f).Throughout time P past := by
  have hpublish : ((ServerTask.single (.publish ids (source.getD ""))).map f).Throughout time P
      past := ⟨hwait, fun _ => hend⟩
  unfold afterWrite
  rw [haudits, if_pos rfl]
  dsimp only
  split
  next file _ =>
    rw [ServerTask.map, andThen_assoc]
    exact throughout_andThen (quiet_saveTask file) hwait fun _ => hpublish
  next => exact hpublish

/-- The dialogues with requests and calls account for their deeds at every point. -/
theorem Dialogue.throughout {v : Service} (haudits : v.audits = true) {source : Option String}
    {Asked : List Update → Prop} {Acks : α → Prop} {t : ServerTask α}
    (h : Dialogue v source Asked Acks t) (time : Int64) :
    t.Throughout time (Account source Asked Acks time) [] := by
  cases h with
  | answered hno => exact .refused hno
  | reading hquiet hno =>
    exact throughout_map (quiet_of_not_touches hquiet) .waiting fun r => .refused (hno r)
  | @writing us _ f hus hwriter hok hno =>
    obtain ⟨call, hcall, rfl, rfl⟩ := hwriter.exists_call
    refine ⟨.waiting, fun r => ?_⟩
    cases r with
    | error e => exact .refused (hno _)
    | ok =>
      have hdeeds : (ServerStep.store call).deeds time (.ok ()) = [.wrote call.writes] :=
        if_pos hcall
      rw [hdeeds]
      show (((v.afterWrite _ source).map Except.ok).map f).Throughout time _ [.wrote call.writes]
      rw [map_map]
      exact Service.throughout_afterWrite haudits (.written hus) (.announced hus hok)

/-- What comes in at a service: a request, or a call. -/
inductive Arrival
  | request (r : HttpRequest)
  | call (c : RpcCall)

namespace Arrival

/-- The task that handles it. -/
def task (i : Ingest) : Arrival → ServerTask ServingAnswer
  | request r => (i.handle r).map .response
  | call c => (i.call c).map .reply

/-- The address of the caller, as it came in. -/
def source : Arrival → Option String
  | request r => Ingest.source r
  | call c => c.realIp

/-- What it asks to write: the updates that a request spells, or the entries of a call that count,
if there are any. -/
def Asks (i : Ingest) : Arrival → List Update → Prop
  | request r, us => Ingest.Requests i r us
  | call c, us => Ingest.Asks c us ∧ us ≠ []

/-- Whether an answer acknowledges a write: the success of a request to write, or of a call that
has anything to write. -/
def Acknowledged : Arrival → ServingAnswer → Prop
  | request r, .response a => Ingest.IsWrite r ∧ a.isSuccess = true
  | call c, .reply a => a.isSuccess = true ∧ ¬ Ingest.Asks c []
  | _, _ => False

/-- The account that a service has to give of it. -/
abbrev Accounts (i : Ingest) (time : Int64) (x : Arrival) :
    List Deed → Standing ServingAnswer → Prop :=
  Account x.source (x.Asks i) x.Acknowledged time

theorem dialogue_task (i : Ingest) (x : Arrival) :
    Dialogue i.service x.source (x.Asks i) x.Acknowledged (x.task i) := by
  cases x with
  | request r => exact .map (Ingest.dialogue_handle i r)
  | call c =>
    -- A call that asks for nothing is never acknowledged as a write.
    refine .map ((Ingest.dialogue_call i c).refine fun us a hus hacks => ⟨hus, ?_⟩)
    rintro rfl
    exact hacks.2 hus

theorem throughout_task {i : Ingest} (haudits : i.service.audits = true) (x : Arrival)
    (time : Int64) : (x.task i).Throughout time (x.Accounts i time) [] :=
  (dialogue_task i x).throughout haudits time

end Arrival

/-! ## 3. Deeds in a pool -/

/-- The deeds of a course of events, each with its task. -/
abbrev Trail := List (Nat × Deed)

namespace Trail

/-- The event of a deed, if it has published one. -/
def event? : Nat × Deed → Option AuditEvent
  | (_, .published e) => some e
  | (_, .wrote _) => none

/-- The events that have been published, in order. -/
def events (trail : Trail) : List AuditEvent := trail.filterMap event?

/-- The deeds of one task, in order. -/
def deedsOf (k : Nat) (trail : Trail) : List Deed :=
  trail.filterMap fun d => if d.1 = k then some d.2 else none

theorem deedsOf_append (k : Nat) (trail more : Trail) :
    deedsOf k (trail ++ more) = deedsOf k trail ++ deedsOf k more := List.filterMap_append

theorem events_append (trail more : Trail) : events (trail ++ more) = events trail ++ events more :=
  List.filterMap_append

/-- What a call of the store does is no event. -/
theorem events_store (k : Nat) (c : StoreCall β) (r : Except StoreFault β) (time : Int64) :
    events (((ServerStep.store c).deeds time r).map (k, ·)) = [] := by
  cases r with
  | error e => rfl
  | ok a =>
    show events (List.map _ (if c.isWrite = true then _ else _)) = []
    split <;> rfl

theorem deedsOf_self (k : Nat) (ds : List Deed) : deedsOf k (ds.map (k, ·)) = ds := by
  unfold deedsOf
  rw [List.filterMap_map]
  exact (List.filterMap_congr fun d _ => if_pos rfl).trans List.filterMap_some

theorem deedsOf_other {j k : Nat} (h : j ≠ k) (ds : List Deed) :
    deedsOf k (ds.map (j, ·)) = [] := by
  refine List.filterMap_eq_nil_iff.mpr fun d hd => ?_
  obtain ⟨_, -, rfl⟩ := List.mem_map.mp hd
  exact if_neg h

end Trail

namespace ServerPool

open Trail

variable {store : Store σ} {pool : ServerPool α σ} {k : Nat} {t : PoolTask α}

/-- What is done in a move, and by which task. -/
def deeds (store : Store σ) (pool : ServerPool α σ) : PoolMove α → Trail
  | .turn k =>
    match pool.tasks[k]? with
    | some (.running (.step s _)) =>
      (s.deeds pool.state.time (s.take store pool.state).1).map (k, ·)
    | _ => []
  | _ => []

/-- What is done in a course of events, in order. -/
def trail (store : Store σ) (pool : ServerPool α σ) : List (PoolMove α) → Trail
  | [] => []
  | m :: moves => pool.deeds store m ++ trail store (pool.step store m) moves

/-- Every listener has received the events of a trail behind what it had before, and the clock is
where it was. -/
structure Delivered (before after : ServerState σ) (trail : Trail) : Prop where
  inboxes : after.inboxes = before.inboxes.map (· ++ events trail)
  time : after.time = before.time

theorem delivered_nil {before after : ServerState σ} (hinboxes : after.inboxes = before.inboxes)
    (htime : after.time = before.time) : Delivered before after [] := by
  refine ⟨hinboxes.trans ?_, htime⟩
  simp [events]

theorem Delivered.append {first second third : ServerState σ} {trail more : Trail}
    (h : Delivered first second trail) (h' : Delivered second third more) :
    Delivered first third (trail ++ more) := by
  refine ⟨?_, h'.time.trans h.time⟩
  rw [h'.inboxes, h.inboxes, List.map_map]
  refine List.map_congr_left fun inbox _ => ?_
  rw [events_append]
  exact List.append_assoc _ _ _

/-- What becomes of the task at place `j` in a move, and what it does meanwhile: it is cancelled by
that very move, or it takes a step. -/
inductive Advance (time : Int64) (m : PoolMove α) (j : Nat) :
    PoolTask α → List Deed → PoolTask α → Prop
  | cancelled {t : PoolTask α} : m = .cancel j → t.hasEnded = false →
      Advance time m j t [] .cancelled
  | answered {s : ServerStep β} {next : β → ServerTask α} (r : β) :
      Advance time m j (.running (.step s next)) (s.deeds time r) (.running (next r))

/-- What a move comes to: no task changes, or there is a new one, or one of them advances. -/
inductive Happens (pool : ServerPool α σ) : PoolMove α → Trail → ServerPool α σ → Prop
  | nothing {m : PoolMove α} {after : ServerPool α σ} : (∀ task, m ≠ .start task) →
      after.tasks = pool.tasks → Delivered pool.state after.state [] → Happens pool m [] after
  | start (task : ServerTask α) :
      Happens pool (.start task) [] { pool with tasks := pool.tasks ++ [.running task] }
  | advance {m : PoolMove α} {after : ServerPool α σ} {j : Nat} {t u : PoolTask α}
      {ds : List Deed} : (∀ task, m ≠ .start task) → pool.tasks[j]? = some t →
      Advance pool.state.time m j t ds u → after.tasks = pool.tasks.set j u →
      Delivered pool.state after.state (ds.map (j, ·)) → Happens pool m (ds.map (j, ·)) after

/-- A task may advance without a deed. -/
theorem happens_silently {m : PoolMove α} {after : ServerPool α σ} {j : Nat} {u : PoolTask α}
    (hm : ∀ task, m ≠ .start task) (hj : pool.tasks[j]? = some t)
    (hadvance : Advance pool.state.time m j t [] u) (htasks : after.tasks = pool.tasks.set j u)
    (hdelivered : Delivered pool.state after.state []) : Happens pool m [] after := by
  have hsilent : Delivered pool.state after.state ([].map (j, ·)) := hdelivered
  exact .advance hm hj hadvance htasks hsilent

theorem happens_turn (store : Store σ) (pool : ServerPool α σ) (j : Nat) :
    Happens pool (.turn j) (pool.deeds store (.turn j)) (pool.turn store j) := by
  have hm : ∀ task : ServerTask α, PoolMove.turn j ≠ .start task := by simp
  have hidle {after : ServerPool α σ} (htasks : after.tasks = pool.tasks)
      (hstate : after.state = pool.state) : Happens pool (.turn j) [] after :=
    .nothing hm htasks (delivered_nil (by rw [hstate]) (by rw [hstate]))
  cases hj : pool.tasks[j]? with
  | none =>
    simp only [turn, deeds, hj]
    exact hidle rfl rfl
  | some t =>
    cases t with
    | cancelled =>
      simp only [turn, deeds, hj]
      exact hidle rfl rfl
    | running task =>
      cases task with
      | done a =>
        simp only [turn, deeds, hj]
        exact hidle rfl rfl
      | step s next =>
        simp only [turn, deeds, hj]
        cases s with
        | store c =>
          -- A call leaves the inboxes alone, and it is never an event.
          refine .advance hm hj (.answered _) rfl ⟨?_, rfl⟩
          rw [events_store]
          have hsame : Delivered pool.state pool.state [] := delivered_nil rfl rfl
          exact hsame.inboxes
        | beginSave =>
          simp only [advance]
          split
          next => exact happens_silently hm hj (.answered ()) rfl (delivered_nil rfl rfl)
          next => exact hidle rfl rfl
        | replaceFile file ms =>
          simp only [advance]
          split <;> exact hidle rfl rfl
        | endSave => exact happens_silently hm hj (.answered ()) rfl (delivered_nil rfl rfl)
        | publish ids source => exact .advance hm hj (.answered ()) rfl ⟨rfl, rfl⟩

/-- A task that waits for a write goes on with its outcome. -/
theorem happens_resume {m : PoolMove α} (hm : ∀ task, m ≠ .start task) {ended : ServerPool α σ}
    (htasks : ended.tasks = pool.tasks) (hstate : Delivered pool.state ended.state []) (j : Nat)
    (outcome : Except StoreFault Unit) : Happens pool m [] (ended.resume j outcome) := by
  unfold resume
  rw [htasks]
  split
  next hj =>
    refine happens_silently hm hj (.answered outcome) ?_ hstate
    rw [setTask, htasks]
  next => exact .nothing hm htasks hstate

/-- Every move comes to one of these. -/
theorem happens (store : Store σ) (pool : ServerPool α σ) (m : PoolMove α) :
    Happens pool m (pool.deeds store m) (pool.step store m) := by
  have hsame : Delivered pool.state pool.state [] := delivered_nil rfl rfl
  cases m with
  | start task => exact .start task
  | turn j => exact happens_turn store pool j
  | land j =>
    have hm : ∀ task : ServerTask α, PoolMove.land j ≠ .start task := by simp
    simp only [step, land]
    split
    next =>
      refine happens_resume hm ?_ ?_ _ _
      · rfl
      · simp only [ServerStep.take]
        split <;> exact delivered_nil rfl rfl
    next => exact .nothing hm rfl hsame
  | fail j fault =>
    have hm : ∀ task : ServerTask α, PoolMove.fail j fault ≠ .start task := by simp
    simp only [step, fail]
    split
    next =>
      refine happens_resume hm ?_ ?_ _ _
      · rfl
      · exact hsame
    next => exact .nothing hm rfl hsame
  | cancel j =>
    have hm : ∀ task : ServerTask α, PoolMove.cancel j ≠ .start task := by simp
    simp only [step, cancel]
    split
    next t ht =>
      split
      next => exact .nothing hm rfl hsame
      next hrunning =>
        exact happens_silently hm ht (.cancelled rfl (Bool.eq_false_iff.mpr hrunning)) rfl hsame
    next => exact .nothing hm rfl hsame

/-- A task that is there is still there one move later. If it has done anything, that was a step
of its own. -/
theorem exists_advance (store : Store σ) (m : PoolMove α) (h : pool.tasks[k]? = some t) :
    ∃ t', (pool.step store m).tasks[k]? = some t' ∧
      (t' = t ∧ deedsOf k (pool.deeds store m) = [] ∨
        Advance pool.state.time m k t (deedsOf k (pool.deeds store m)) t') := by
  have hk : k < pool.tasks.length := (List.getElem?_eq_some_iff.mp h).1
  have hhappens := happens store pool m
  generalize pool.deeds store m = ds, pool.step store m = after at hhappens
  cases hhappens with
  | nothing _ htasks => exact ⟨t, htasks ▸ h, .inl ⟨rfl, rfl⟩⟩
  | start task => exact ⟨t, (List.getElem?_append_left hk).trans h, .inl ⟨rfl, rfl⟩⟩
  | @advance _ _ j _ u ds _ hj hadvance htasks =>
    rw [htasks]
    by_cases hjk : j = k
    · subst hjk
      obtain rfl := Option.some.inj (h.symm.trans hj)
      rw [deedsOf_self]
      exact ⟨u, List.getElem?_set_self hk, .inr hadvance⟩
    · rw [deedsOf_other hjk]
      exact ⟨t, (List.getElem?_set_ne hjk).trans h, .inl ⟨rfl, rfl⟩⟩

/-- Only a start adds a task. -/
theorem length_step {m : PoolMove α} (hm : ∀ task, m ≠ .start task) :
    (pool.step store m).tasks.length = pool.tasks.length := by
  have hhappens := happens store pool m
  generalize pool.deeds store m = ds, pool.step store m = after at hhappens
  cases hhappens with
  | nothing _ htasks => rw [htasks]
  | start task => exact absurd rfl (hm task)
  | advance _ _ _ htasks => rw [htasks, List.length_set]

/-- Deeds belong to tasks that are there. -/
theorem owner_lt_of_mem_deeds {m : PoolMove α} :
    ∀ d ∈ pool.deeds store m, d.1 < pool.tasks.length := by
  have hhappens := happens store pool m
  generalize pool.deeds store m = ds, pool.step store m = after at hhappens
  intro d hd
  cases hhappens with
  | nothing => cases hd
  | start task => cases hd
  | advance _ hj =>
    obtain ⟨_, -, rfl⟩ := List.mem_map.mp hd
    exact (List.getElem?_eq_some_iff.mp hj).1

/-- A move delivers the events that are published in it. -/
theorem delivered_step (store : Store σ) (pool : ServerPool α σ) (m : PoolMove α) :
    Delivered pool.state (pool.step store m).state (pool.deeds store m) := by
  have hhappens := happens store pool m
  generalize pool.deeds store m = ds, pool.step store m = after at hhappens
  cases hhappens with
  | nothing _ _ hdelivered => exact hdelivered
  | start task => exact delivered_nil rfl rfl
  | advance _ _ _ _ hdelivered => exact hdelivered

theorem delivered_run (store : Store σ) (pool : ServerPool α σ) (moves : List (PoolMove α)) :
    Delivered pool.state (pool.run store moves).state (pool.trail store moves) := by
  induction moves generalizing pool with
  | nil => exact delivered_nil rfl rfl
  | cons m moves ih => exact (delivered_step store pool m).append (ih (pool.step store m))

theorem trail_append (store : Store σ) (pool : ServerPool α σ) (moves more : List (PoolMove α)) :
    pool.trail store (moves ++ more) =
      pool.trail store moves ++ (pool.run store moves).trail store more := by
  induction moves generalizing pool with
  | nil => rfl
  | cons m moves ih =>
    rw [List.cons_append, trail, trail, ih, List.append_assoc]
    rfl

/-- A task that has ended does nothing any more. -/
theorem deedsOf_trail_of_hasEnded (store : Store σ) (moves : List (PoolMove α))
    (h : pool.tasks[k]? = some t) (hended : t.hasEnded = true) :
    deedsOf k (pool.trail store moves) = [] := by
  induction moves generalizing pool with
  | nil => rfl
  | cons m moves ih =>
    obtain ⟨t', ht', hsteps⟩ := exists_advance store m h
    rw [trail, deedsOf_append]
    generalize deedsOf k (pool.deeds store m) = ds at hsteps
    rcases hsteps with ⟨rfl, rfl⟩ | hadvance
    · exact ih ht'
    · cases hadvance with
      | cancelled _ hrunning =>
        rw [hended] at hrunning
        cases hrunning
      | answered r => cases hended

/-- A task is cancelled by the move that cancels it. -/
theorem cancelled_of_step {m : PoolMove α}
    (h : (pool.step store m).tasks[k]? = some .cancelled) :
    pool.tasks[k]? = some .cancelled ∨ m = .cancel k := by
  have hhappens := happens store pool m
  generalize pool.deeds store m = ds, pool.step store m = after at hhappens h
  cases hhappens with
  | nothing _ htasks => exact .inl (htasks ▸ h)
  | start task =>
    rw [List.getElem?_append] at h
    split at h
    next => exact .inl h
    next =>
      obtain ⟨_, hnew⟩ := List.getElem?_eq_some_iff.mp h
      rw [List.getElem_singleton] at hnew
      cases hnew
  | @advance _ _ j t u _ _ hj hadvance htasks =>
    rw [htasks, List.getElem?_set] at h
    split at h
    next hjk =>
      subst hjk
      cases hadvance with
      | cancelled hm _ => exact .inr hm
      | answered r => split at h <;> cases h
    next => exact .inl h

theorem cancelled_of_run {moves : List (PoolMove α)}
    (h : (pool.run store moves).tasks[k]? = some .cancelled) :
    pool.tasks[k]? = some .cancelled ∨ .cancel k ∈ moves := by
  induction moves generalizing pool with
  | nil => exact .inl h
  | cons m moves ih =>
    have hrest : ((pool.step store m).run store moves).tasks[k]? = some .cancelled := h
    rcases ih hrest with hbefore | hlater
    · exact (cancelled_of_step hbefore).imp_right fun hm => List.mem_cons.mpr (.inl hm.symm)
    · exact .inr (List.mem_cons_of_mem m hlater)

end ServerPool

/-! ## 4. Requests and calls at a service -/

/-- What can happen at a service: a request or a call comes in, its task takes a step, a write of
the file ends in one way or the other, or a client leaves. -/
inductive ServiceMove
  | arrive (x : Arrival)
  | turn (task : Nat)
  | land (write : Nat)
  | fail (write : Nat) (fault : StoreFault)
  | leave (task : Nat)

namespace ServiceMove

/-- The move of the tasks. -/
def move (i : Ingest) : ServiceMove → PoolMove ServingAnswer
  | arrive x => .start (x.task i)
  | turn k => .turn k
  | land w => .land w
  | fail w fault => .fail w fault
  | leave k => .cancel k

/-- What comes in. -/
def arrival? : ServiceMove → Option Arrival
  | arrive x => some x
  | _ => none

/-- All that comes in, in order. Its place is the place of its task. -/
def arrivals (moves : List ServiceMove) : List Arrival := moves.filterMap arrival?

theorem arrivals_cons (m : ServiceMove) (moves : List ServiceMove) :
    arrivals (m :: moves) = m.arrival?.toList ++ arrivals moves := by
  cases m <;> rfl

end ServiceMove

namespace PoolTask

/-- Where a task of a pool stands. -/
def standing : PoolTask α → Standing α
  | running (.done a) => .answered a
  | running (.step _ _) => .underWay
  | cancelled => .left

/-- At every point from now on, this holds of all deeds of the task and of where it stands. -/
def Throughout (time : Int64) (P : List Deed → Standing α → Prop) : PoolTask α → List Deed → Prop
  | running task, past => task.Throughout time P past
  | cancelled, past => P past .left

variable {time : Int64} {P : List Deed → Standing α → Prop} {m : PoolMove α} {k : Nat}
  {t t' : PoolTask α} {past ds : List Deed}

theorem Throughout.now (h : t.Throughout time P past) : P past t.standing := by
  cases t with
  | cancelled => exact h
  | running task =>
    cases task with
    | done a => exact h
    | step s next => exact h.1

theorem Throughout.advance (h : t.Throughout time P past)
    (hleave : ∀ past, P past .underWay → P past .left)
    (hadvance : ServerPool.Advance time m k t ds t') : t'.Throughout time P (past ++ ds) := by
  cases hadvance with
  | cancelled _ hrunning =>
    rw [List.append_nil]
    cases t with
    | cancelled => exact h
    | running task =>
      cases task with
      | done a => cases hrunning
      | step s next => exact hleave _ h.1
  | answered r => exact h.2 r

end PoolTask

open Trail ServerPool

/-- A service in the middle of a course of events: there is a task for everything that has come in,
and every task accounts for its deeds, so far and whatever happens next. -/
structure ServicePast (i : Ingest) (time : Int64) (pool : ServerPool ServingAnswer σ)
    (came : List Arrival) (trail : Trail) : Prop where
  clock : pool.state.time = time
  length : pool.tasks.length = came.length
  owners : ∀ d ∈ trail, d.1 < came.length
  accounts : ∀ k x, came[k]? = some x → ∃ t : PoolTask ServingAnswer, pool.tasks[k]? = some t ∧
    t.Throughout time (x.Accounts i time) (deedsOf k trail)

namespace ServicePast

variable {i : Ingest} {time : Int64} {store : Store σ} {pool : ServerPool ServingAnswer σ}
  {came : List Arrival} {trail : Trail}

theorem begin (i : Ingest) (s : ServerState σ) :
    ServicePast i s.time (.ofState s) [] [] :=
  ⟨rfl, rfl, fun _ hd => absurd hd List.not_mem_nil, fun _ _ hx => nomatch hx⟩

/-- A new task has not done anything yet. -/
theorem deedsOf_new (h : ServicePast i time pool came trail) {k : Nat} (hk : came.length ≤ k) :
    deedsOf k trail = [] := by
  refine List.filterMap_eq_nil_iff.mpr fun d hd => if_neg ?_
  have hlt := h.owners d hd
  omega

/-- Whatever happens, the tasks go on accounting for their deeds. -/
theorem step (h : ServicePast i time pool came trail) (haudits : i.service.audits = true)
    (store : Store σ) (m : ServiceMove) :
    ServicePast i time (pool.step store (m.move i)) (came ++ m.arrival?.toList)
      (trail ++ pool.deeds store (m.move i)) := by
  have htime : (pool.step store (m.move i)).state.time = time :=
    (delivered_step store pool (m.move i)).time.trans h.clock
  have howners : ∀ d ∈ trail ++ pool.deeds store (m.move i), d.1 < came.length := by
    intro d hd
    rcases List.mem_append.mp hd with hd | hd
    · exact h.owners d hd
    · exact h.length ▸ owner_lt_of_mem_deeds d hd
  -- What has come in before goes on from where it was.
  have hold : ∀ k x, came[k]? = some x → ∃ t : PoolTask ServingAnswer,
      (pool.step store (m.move i)).tasks[k]? = some t ∧
      t.Throughout time (x.Accounts i time) (deedsOf k (trail ++ pool.deeds store (m.move i))) := by
    intro k x hx
    obtain ⟨t, ht, hthroughout⟩ := h.accounts k x hx
    obtain ⟨t', ht', hsteps⟩ := exists_advance store (m.move i) ht
    refine ⟨t', ht', ?_⟩
    rw [deedsOf_append]
    rcases hsteps with ⟨rfl, hnone⟩ | hadvance
    · rw [hnone, List.append_nil]
      exact hthroughout
    · exact hthroughout.advance (fun _ => Account.leave) (h.clock ▸ hadvance)
  cases harrival : m.arrival? with
  | none =>
    have hm : ∀ task, m.move i ≠ .start task := by
      cases m with
      | arrive x => cases harrival
      | _ => simp [ServiceMove.move]
    rw [Option.toList_none, List.append_nil]
    exact ⟨htime, (length_step hm).trans h.length, howners, hold⟩
  | some x =>
    obtain rfl : m = .arrive x := by
      cases m with
      | arrive y => rw [Option.some.inj harrival]
      | _ => cases harrival
    have htasks : (pool.step store ((ServiceMove.arrive x).move i)).tasks =
        pool.tasks ++ [.running (x.task i)] := rfl
    rw [Option.toList_some]
    refine ⟨htime, ?_, fun d hd => ?_, fun k y hy => ?_⟩
    · rw [htasks, List.length_append, List.length_append, h.length]
      rfl
    · exact (howners d hd).trans_le (by simp)
    · by_cases hk : k < came.length
      · rw [List.getElem?_append_left hk] at hy
        exact hold k y hy
      · have hlt : k < (came ++ [x]).length := (List.getElem?_eq_some_iff.mp hy).1
        obtain rfl : k = came.length := by
          rw [List.length_append, List.length_singleton] at hlt
          omega
        rw [List.getElem?_concat_length] at hy
        obtain rfl := Option.some.inj hy
        refine ⟨_, by rw [htasks, ← h.length, List.getElem?_concat_length], ?_⟩
        have hnew : deedsOf came.length
            (trail ++ pool.deeds store ((ServiceMove.arrive x).move i)) = [] := by
          rw [deedsOf_append, h.deedsOf_new le_rfl]
          rfl
        rw [hnew]
        exact x.throughout_task haudits time

theorem run (h : ServicePast i time pool came trail) (haudits : i.service.audits = true)
    (store : Store σ) (moves : List ServiceMove) :
    ServicePast i time (pool.run store (moves.map (·.move i)))
      (came ++ ServiceMove.arrivals moves) (trail ++ pool.trail store (moves.map (·.move i))) := by
  induction moves generalizing pool came trail with
  | nil =>
    rw [ServiceMove.arrivals, List.filterMap_nil, List.append_nil, List.map_nil, ServerPool.trail,
      List.append_nil]
    exact h
  | cons m moves ih =>
    rw [ServiceMove.arrivals_cons, List.map_cons, ServerPool.trail, ← List.append_assoc,
      ← List.append_assoc]
    exact ih (h.step haudits store m)

end ServicePast

/-! ## 5. One after another -/

/-- Where the deeds of a trail come in two parts, a task that does nothing in the second part is
ahead of one that does nothing in the first. -/
theorem Trail.place_lt {first second : Trail} {j k : Nat} (hj : deedsOf j second = [])
    (hk : deedsOf k first = []) {p q : Nat} {d e : Deed}
    (hp : (first ++ second)[p]? = some (j, d)) (hq : (first ++ second)[q]? = some (k, e)) :
    p < q := by
  have hmem {trail : Trail} {l n : Nat} {f : Deed} (hnone : deedsOf l trail = []) :
      trail[n]? ≠ some (l, f) := by
    intro hn
    have hout := List.filterMap_eq_nil_iff.mp hnone _ (List.mem_of_getElem? hn)
    rw [if_pos rfl] at hout
    cases hout
  have hfirst : p < first.length := by
    by_contra hle
    rw [List.getElem?_append_right (Nat.le_of_not_lt hle)] at hp
    exact hmem hj hp
  have hsecond : first.length ≤ q := by
    by_contra hlt
    rw [List.getElem?_append_left (Nat.lt_of_not_le hlt)] at hq
    exact hmem hk hq
  omega

/-! ## 6. The audit trail -/

namespace Ingest

open ServiceMove

/-- A service with an audit trail is asked by any number of requests and calls, whose tasks take
their steps in any order, over any store and any disk. Saves can end in any way, and clients can
leave. Then

* every listener has received the events of the trail, in its order, and nothing else;
* every deed is that of a request or a call that has come in;
* each request or call accounts for its deeds: it has neither written nor published anything, and
  its answer, if there is one, acknowledges no write; or it has written what it asked to write and
  is under way, or has been left by its client; or it has written that and published one event,
  which names the metrics of all its updates in their order and its caller's address, and it is
  answered with an acknowledgement;
* only those that have been left by their clients end without an answer;
* if one is over when another comes in, all deeds of the first stand in the trail before all deeds
  of the second, writes and events alike. -/
theorem audit_trail_exact (i : Ingest) (haudits : i.service.audits = true) (store : Store σ)
    (s : ServerState σ) (moves : List ServiceMove) :
    let start : ServerPool ServingAnswer σ := .ofState s
    let course := moves.map (·.move i)
    let after := start.run store course
    let trail := start.trail store course
    after.state.inboxes = s.inboxes.map (· ++ trail.events) ∧
    (∀ d ∈ trail, d.1 < (arrivals moves).length) ∧
    (∀ (k : Nat) (x : Arrival), (arrivals moves)[k]? = some x →
      ∃ t, after.tasks[k]? = some t ∧ x.Accounts i s.time (trail.deedsOf k) t.standing ∧
        (t.standing = .left → .leave k ∈ moves)) ∧
    ∀ (before later : List ServiceMove) (j k : Nat) (t : PoolTask ServingAnswer),
      moves = before ++ later → (start.run store (before.map (·.move i))).tasks[j]? = some t →
      t.hasEnded = true → (arrivals before).length ≤ k →
      ∀ (p q : Nat) (d e : Deed), trail[p]? = some (j, d) → trail[q]? = some (k, e) → p < q := by
  intro start course after trail
  have hpast (moves : List ServiceMove) := (ServicePast.begin i s).run haudits store moves
  refine ⟨(delivered_run store start course).inboxes, (hpast moves).owners, fun k x hx => ?_, ?_⟩
  · obtain ⟨t, ht, hthroughout⟩ := (hpast moves).accounts k x hx
    refine ⟨t, ht, hthroughout.now, fun hleft => ?_⟩
    have hcancelled : t = .cancelled := by
      cases t with
      | cancelled => rfl
      | running task => cases task <;> cases hleft
    subst hcancelled
    have hmem := (cancelled_of_run ht).resolve_left (fun hnone => nomatch hnone)
    obtain ⟨m, hm, hmove⟩ := List.mem_map.mp hmem
    cases m with
    | leave j =>
      obtain rfl : j = k := by injection hmove
      exact hm
    | _ => cases hmove
  · rintro before later j k t rfl ht hended hk p q d e hp hq
    have htrail : trail = start.trail store (before.map (·.move i)) ++
        (start.run store (before.map (·.move i))).trail store (later.map (·.move i)) := by
      rw [← trail_append, ← List.map_append]
    rw [htrail] at hp hq
    exact Trail.place_lt (deedsOf_trail_of_hasEnded store _ ht hended)
      ((hpast before).deedsOf_new hk) hp hq

/-- A request and a call write at the same time, to a service whose saves fail. The call is the
first to get through. Each of two listeners receives the event of either, the one of the call
first: it names the counter twice, leaves out what the call holds without a name, and has no
address. -/
theorem audit_trail_exact_failed_saves :
    let i : Ingest := ⟨.none, none, ⟨some ⟨"missing/metrics.json"⟩, true⟩⟩
    let s : ServerState Ledger := ⟨.empty, .withFolder ".", .empty 2, 7⟩
    let request : HttpRequest := ⟨"POST", ⟨none, "", "/update/counter/c/1", none⟩,
      [(Headers.realIp, Bytes.ofText "10.0.0.1")], []⟩
    let count (id : String) (n : Int64) : Json := (Metric.ofUpdate ⟨id, .counter n⟩).toJson
    let call : RpcCall := ⟨1, updateMethod,
      .object [("metrics", .list [.null, count "c" 2, count "" 9, count "c" 3])], []⟩
    let moves : List ServiceMove :=
      [.arrive (.request request), .arrive (.call call), .turn 0, .turn 1, .turn 1, .turn 0,
        .turn 1, .turn 1, .turn 1, .land 0, .turn 1, .turn 1, .turn 0, .turn 0, .turn 0, .turn 0,
        .land 0, .turn 0, .turn 0]
    let course := moves.map (·.move i)
    let after := ServerPool.run Ledger.store (.ofState s) course
    i.service.audits = true ∧
    after.state.inboxes = List.replicate 2 [⟨7, ["c", "c"], ""⟩, ⟨7, ["c"], "10.0.0.1"⟩] ∧
    ∃ t us a, after.tasks[1]? = some t ∧ (Arrival.call call).Asks i us ∧
      us.map Update.id = ["c", "c"] ∧ t.standing = .answered a := by
  intro i s request count call moves course after
  have htrail : ServerPool.trail Ledger.store (.ofState s) course =
      [(0, .wrote [⟨"c", .counter 1⟩]), (1, .wrote [⟨"c", .counter 2⟩, ⟨"c", .counter 3⟩]),
        (1, .published ⟨7, ["c", "c"], ""⟩), (0, .published ⟨7, ["c"], "10.0.0.1"⟩)] := by
    decide +kernel
  obtain ⟨hinboxes, -, haccounts, -⟩ := audit_trail_exact i rfl Ledger.store s moves
  obtain ⟨t, ht, haccount, -⟩ := haccounts 1 (.call call) rfl
  refine ⟨rfl, ?_, t, ?_⟩
  · rw [hinboxes, htrail]
    rfl
  · rw [htrail] at haccount
    generalize hstanding : t.standing = standing at haccount
    cases haccount with
    | announced hasks _ => exact ⟨_, _, ht, hasks, rfl, rfl⟩

/-- A client leaves while the save behind its write is under way. The store holds the write, and so
does the file once the save has landed, but no listener has received an event, and none will,
whatever happens later. -/
theorem abandoned_write_unpublished :
    let i : Ingest := ⟨.none, none, ⟨some ⟨"metrics.json"⟩, true⟩⟩
    let s : ServerState Ledger := ⟨.empty, .withFolder ".", .empty 1, 7⟩
    let request : HttpRequest := ⟨"POST", ⟨none, "", "/update/counter/c/1", none⟩, [], []⟩
    let moves : List ServiceMove := [.arrive (.request request), .turn 0, .turn 0, .turn 0, .turn 0,
      .turn 0, .leave 0, .land 0]
    let start : ServerPool ServingAnswer Ledger := .ofState s
    let after := start.run Ledger.store (moves.map (·.move i))
    i.service.audits = true ∧ after.state.inboxes = [[]] ∧
    after.state.store.get? .counter "c" = some (.counter 1) ∧
    (after.state.disk.read "metrics.json").toOption =
      some (SnapshotFile.contents [.ofUpdate ⟨"c", .counter 1⟩]) ∧
    ∀ later : List ServiceMove,
      (start.trail Ledger.store ((moves ++ later).map (·.move i))).deedsOf 0 =
        [.wrote [⟨"c", .counter 1⟩]] := by
  intro i s request moves start after
  have htrail : start.trail Ledger.store (moves.map (·.move i)) =
      [(0, .wrote [⟨"c", .counter 1⟩])] := by decide +kernel
  have hended : after.tasks[0]?.map PoolTask.hasEnded = some true := by decide +kernel
  refine ⟨rfl, by decide +kernel, by decide +kernel, by decide +kernel, fun later => ?_⟩
  obtain ⟨t, ht, hended⟩ := Option.map_eq_some_iff.mp hended
  rw [List.map_append, trail_append, deedsOf_append, htrail,
    deedsOf_trail_of_hasEnded Ledger.store _ ht hended]
  rfl

end Ingest
end Metering
