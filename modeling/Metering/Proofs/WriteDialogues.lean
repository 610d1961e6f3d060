import Metering.Proofs.SaveStages
import Metering.Proofs.SignatureCheck

/-!
Answers that acknowledge a write, whoever else is at work.

What a request comes to when it runs alone says little about a server with many tasks. But its
dialogue has one of three forms (`Dialogue`): an answer without a step, a reading, or the writing
of what was asked for, which begins with the one call that writes. So in every interleaving an
answer that acknowledges a write comes after a point where the ledger has accepted all of it.

Results:
1. `Ingest.dialogue_handle`, `Ingest.dialogue_call`: the forms of requests and calls.
2. `Dialogue.savesWith`: none of them does anything with the file but save to it as a whole.
3. `Dialogue.owes`, `ServerPool.accepted_of_answer`: what an answer that acknowledges a write says
   of the points before it.
-/
namespace Metering

open ServerTask

/-! ## 1. The forms of dialogues -/

/-- The dialogue in which a service writes these updates for a caller: a single one, or a batch. -/
inductive Service.Writer (v : Service) (source : Option String) :
    List Update → ServerTask (Except Refusal Unit) → Prop
  | one (u : Update) : Writer v source [u] (v.update u source)
  | all (us : List Update) : Writer v source us (v.updateAll us source)

/-- A dialogue with a caller that is asked for a write, and ends with an answer that acknowledges
one if and only if it has written what it was asked for. -/
inductive Dialogue (v : Service) (source : Option String) (Asked : List Update → Prop)
    (Acks : α → Prop) : ServerTask α → Prop
  | answered {a : α} : ¬ Acks a → Dialogue v source Asked Acks (.done a)
  | reading {t : StoreTask β} {f : Except StoreFault β → α} : ¬ (ofStore t).Touches →
      (∀ r, ¬ Acks (f r)) → Dialogue v source Asked Acks ((ofStore t).map f)
  | writing {us : List Update} {t : ServerTask (Except Refusal Unit)}
      {f : Except Refusal Unit → α} : Asked us → v.Writer source us t → Acks (f (.ok ())) →
      (∀ e, ¬ Acks (f (.error e))) → Dialogue v source Asked Acks (t.map f)

namespace Dialogue

variable {v : Service} {source : Option String} {Asked : List Update → Prop} {Acks : β → Prop}

theorem mono {Asked' : List Update → Prop} {Acks' : β → Prop} {t : ServerTask β}
    (h : Dialogue v source Asked Acks t) (hasked : ∀ us, Asked us → Asked' us)
    (hacks : ∀ b, Acks' b ↔ Acks b) : Dialogue v source Asked' Acks' t := by
  cases h with
  | answered ha => exact .answered (mt (hacks _).mp ha)
  | reading hquiet hr => exact .reading hquiet fun r => mt (hacks _).mp (hr r)
  | writing hus hwriter hok he =>
    exact .writing (hasked _ hus) hwriter ((hacks _).mpr hok) fun e => mt (hacks _).mp (he e)

/-- What is asked for may be told from the acknowledgement as well. -/
theorem refine {Asked' : List Update → Prop} {t : ServerTask β} (h : Dialogue v source Asked Acks t)
    (hasked : ∀ us b, Asked us → Acks b → Asked' us) : Dialogue v source Asked' Acks t := by
  cases h with
  | answered ha => exact .answered ha
  | reading hquiet hr => exact .reading hquiet hr
  | writing hus hwriter hok he => exact .writing (hasked _ _ hus hok) hwriter hok he

theorem map {t : ServerTask α} {g : α → β} (h : Dialogue v source Asked (fun a => Acks (g a)) t) :
    Dialogue v source Asked Acks (t.map g) := by
  cases h with
  | answered ha => exact .answered ha
  | reading hquiet hr =>
    rw [map_map]
    exact .reading hquiet hr
  | writing hus hwriter hok he =>
    rw [map_map]
    exact .writing hus hwriter hok he

end Dialogue

namespace Ingest

/-- A success. -/
def Succeeds (a : HttpResponse) : Prop := a.isSuccess = true

theorem not_succeeds_of_status {a : HttpResponse} (h : 400 ≤ a.status) : ¬ Succeeds a := by
  rw [Succeeds, not_isSuccess_of_status h]
  exact Bool.false_ne_true

theorem dialogue_of_rejects {v : Service} {source : Option String} {Asked : List Update → Prop}
    {t : ServerTask HttpResponse} (h : Rejects t) : Dialogue v source Asked Succeeds t := by
  obtain ⟨a, ha, rfl⟩ := h
  exact .answered (not_succeeds_of_status ha)

/-- A service writes, and a refusal is no success. -/
theorem dialogue_answering {v : Service} {source : Option String} {Asked : List Update → Prop}
    {us : List Update} (hus : Asked us) {t : ServerTask (Except Refusal Unit)}
    (ht : v.Writer source us t) {f : Unit → HttpResponse} (hf : (f ()).status = 200) :
    Dialogue v source Asked Succeeds (answering t f) :=
  .writing hus ht (isSuccess_of_status hf) fun e => not_succeeds_of_status (Refusal.status_ge e)

/-- The three writing endpoints write what a request describes. -/
theorem dialogue_endpoint (i : Ingest) (r : HttpRequest) {resource : Resource}
    (h : resource.isWrite = true) :
    Dialogue i.service (source r) (Describes i r resource) Succeeds (i.endpoint r resource) := by
  cases resource with
  | updateAt rawKind rawId rawValue =>
    simp only [endpoint, updateAt]
    split
    next => exact dialogue_of_rejects ⟨_, Nat.le_refl 400, rfl⟩
    next kind id value hparts =>
      obtain ⟨_, hkind, hparts⟩ := Chaining.ok_of_bind hparts
      obtain ⟨_, hid, hparts⟩ := Chaining.ok_of_bind hparts
      obtain ⟨_, hvalue, hparts⟩ := Chaining.ok_of_bind hparts
      obtain ⟨rfl, hrest⟩ := Prod.mk.inj (Except.ok.inj hparts)
      obtain ⟨rfl, rfl⟩ := Prod.mk.inj hrest
      split
      next => exact dialogue_of_rejects (rejects_refuse _)
      next u hu =>
        refine dialogue_answering ?_ (.one u) rfl
        unfold updateOfParts at hu
        split at hu
        next => cases hu
        next hne =>
          obtain ⟨k, hk, hu⟩ := Chaining.ok_of_bind hu
          obtain ⟨v, hv, hu⟩ := Chaining.ok_of_bind hu
          obtain rfl := Except.ok.inj hu
          exact .path hkind hid hvalue hne hk hv
  | update =>
    rcases withBody_cases i r Metric.decode _ with ⟨hsound, m, hm, hnext⟩ | ⟨-, hrejects⟩
    · rw [endpoint, update, hnext]
      split
      next => exact dialogue_of_rejects (rejects_refuse _)
      next u hu => exact dialogue_answering (.record hsound hm hu) (.one u) rfl
    · exact dialogue_of_rejects hrejects
  | updates =>
    rcases withBody_cases i r Metric.decodeList _ with ⟨hsound, ms, hms, hnext⟩ | ⟨-, hrejects⟩
    · rw [endpoint, updates, hnext]
      split
      next => exact dialogue_of_rejects (rejects_refuse _)
      next hne =>
        split
        next => exact dialogue_of_rejects (rejects_refuse _)
        next us hus => exact dialogue_answering (.list hsound hms hne hus) (.all us) rfl
    · exact dialogue_of_rejects hrejects
  | valueAt kind id => cases h
  | value => cases h
  | ping => cases h

/-- The other endpoints read, or answer without a step. -/
theorem dialogue_reading (i : Ingest) (r : HttpRequest) {resource : Resource}
    (h : resource.isWrite = false) (v : Service) (caller : Option String)
    (Asked : List Update → Prop) :
    Dialogue v caller Asked (fun _ => False) (i.endpoint r resource) := by
  cases resource with
  | updateAt kind id value => cases h
  | update => cases h
  | updates => cases h
  | valueAt kind id =>
    simp only [endpoint, valueAt]
    split
    next => exact .answered not_false
    next =>
      split
      next => exact .answered not_false
      next =>
        rw [answering, Service.read, map_map]
        exact .reading (not_touches_calls_read _ _) fun _ => not_false
  | value =>
    rcases withBody_cases i r Metric.decode _ with ⟨-, m, -, hnext⟩ | ⟨-, a, -, hdone⟩
    · rw [endpoint, value, hnext]
      split
      next => exact .answered not_false
      next =>
        rw [answering, Service.read, map_map]
        exact .reading (not_touches_calls_read _ _) fun _ => not_false
    · rw [endpoint, value, hdone]
      exact .answered not_false
  | ping =>
    rw [endpoint, answering, Service.ping, map_map]
    exact .reading not_touches_calls_ping fun _ => not_false

theorem dialogue_dispatch (i : Ingest) (r : HttpRequest) :
    Dialogue i.service (source r)
      (fun us => ∃ resource, r.method = "POST" ∧ Resource.ofPath? r.uri.path = some resource ∧
        Describes i r resource us)
      (fun a => IsWrite r ∧ Succeeds a) (i.dispatch r) := by
  unfold dispatch
  split
  next => exact .answered fun h => not_succeeds_of_status (by decide : 400 ≤ 404) h.2
  next resource hpath =>
    split
    next htakes =>
      cases hw : resource.isWrite with
      | true =>
        have hmethod : r.method = "POST" := by
          simpa [Resource.takes, Resource.isRead_of_isWrite hw] using htakes
        exact (dialogue_endpoint i r hw).mono (fun us hus => ⟨resource, hmethod, hpath, hus⟩)
          fun a => and_iff_right ⟨hmethod, resource, hpath, hw⟩
      | false =>
        refine (dialogue_reading i r hw i.service _ _).mono (fun us hus => hus) fun a => ?_
        refine iff_false_intro ?_
        rintro ⟨⟨-, other, hother, hwrite⟩, -⟩
        obtain rfl := Option.some.inj (hpath.symm.trans hother)
        rw [hw] at hwrite
        cases hwrite
    next => exact .answered fun h => not_succeeds_of_status (by decide : 400 ≤ 405) h.2

/-- A request to write is acknowledged only when what it requests has been written. -/
theorem dialogue_handle (i : Ingest) (r : HttpRequest) :
    Dialogue i.service (source r) (Requests i r) (fun a => IsWrite r ∧ Succeeds a)
      (i.handle r) := by
  unfold handle
  refine .map ?_
  split
  next f _ =>
    refine .answered fun h => ?_
    rw [Succeeds, HttpResponse.isSuccess, present_status] at h
    exact not_succeeds_of_status (Refusal.status_ge (.failure f)) h.2
  next inner hinner =>
    obtain ⟨hmethod, huri⟩ := received_target hinner
    rw [← received_source hinner]
    refine .map ((dialogue_dispatch i inner).mono ?_ ?_)
    · rintro us ⟨resource, hpost, hpath, hus⟩
      exact ⟨inner, resource, hinner, hpost, hpath, hus⟩
    · intro a
      unfold IsWrite Succeeds HttpResponse.isSuccess
      rw [present_status, finish_status, hmethod, huri]

/-- What a call asks to write: the entries that count. -/
def Asks (c : RpcCall) (us : List Update) : Prop :=
  c.method = updateMethod ∧ ∃ es, entries c.args = .ok es ∧
    (counted es).mapM Metric.toUpdate = .ok us

theorem Asks.unique {c : RpcCall} {us vs : List Update} (h : Asks c us) (k : Asks c vs) :
    us = vs := by
  obtain ⟨-, es, hes, hus⟩ := h
  obtain ⟨-, es', hes', hvs⟩ := k
  obtain rfl := Except.ok.inj (hes.symm.trans hes')
  exact Except.ok.inj (hus.symm.trans hvs)

theorem not_isSuccess_failed {id : UInt64} {status : RpcStatus} (h : status ≠ .ok) (text : String) :
    ¬ (RpcReply.failed id status text).isSuccess = true := by
  cases status with
  | ok => exact absurd rfl h
  | _ => exact Bool.false_ne_true

/-- A call is acknowledged only when what it asks for has been written, or is nothing. -/
theorem dialogue_call (i : Ingest) (c : RpcCall) :
    Dialogue i.service c.realIp (Asks c) (fun a => a.isSuccess = true ∧ ¬ Asks c [])
      (i.call c) := by
  have hfailed {id : UInt64} {status : RpcStatus} (h : status ≠ .ok) (text : String) :
      ¬ ((RpcReply.failed id status text).isSuccess = true ∧ ¬ Asks c []) :=
    fun hacks => not_isSuccess_failed h text hacks.1
  unfold call
  dsimp only
  split
  next => exact .answered (hfailed (by decide) _)
  next =>
    split
    next hmethod =>
      unfold updateCall
      split
      next => exact .answered (hfailed (by decide) _)
      next es hes =>
        split
        next => exact .answered (hfailed (by decide) _)
        next hnone => exact .answered fun hacks => hacks.2 ⟨hmethod, es, hes, hnone⟩
        next us hne hus =>
          have hasks : Asks c us := ⟨hmethod, es, hes, hus⟩
          refine .writing hasks (.all us) ⟨rfl, fun hnone => ?_⟩ fun e => hfailed ?_ _
          · exact hne (hasks.unique hnone)
          · split <;> decide
    next => exact .answered (hfailed (by decide) _)

end Ingest

/-! ## 2. Saving as a whole -/

namespace Service

variable {v : Service} {file : SnapshotFile}

theorem savesWith_afterWrite (h : ∀ f, v.savesTo = some f → f = file) (ids : List String)
    (source : Option String) : (v.afterWrite ids source).SavesWith file := by
  have haudit : (if v.audits then ServerTask.single (.publish ids (source.getD "")) else
      .done ()).SavesWith file := by
    split
    next => exact .publish fun r => .done r
    next => exact .done ()
  unfold afterWrite
  dsimp only
  split
  next f hf =>
    obtain rfl := h f hf
    rw [SnapshotFile.saveTask_andThen]
    exact .save fun _ => haudit
  next => exact haudit

theorem savesWith_write (h : ∀ f, v.savesTo = some f → f = file) (task : StoreTask Unit)
    (ids : List String) (source : Option String) : (v.write task ids source).SavesWith file := by
  have hcalls : (ofStore task).SavesWith file := by
    induction task with
    | done a => exact .done _
    | ask call next ih => exact .ask ih
  refine hcalls.andThen fun answer => ?_
  cases answer with
  | error e => exact .done _
  | ok => exact (savesWith_afterWrite h ids source).map Except.ok

theorem Writer.savesWith (h : ∀ f, v.savesTo = some f → f = file) {source : Option String}
    {us : List Update} {t : ServerTask (Except Refusal Unit)} (ht : v.Writer source us t) :
    t.SavesWith file := by
  cases ht with
  | one u => exact savesWith_write h _ _ source
  | all us => exact savesWith_write h _ _ source

end Service

theorem Dialogue.savesWith {v : Service} {file : SnapshotFile}
    (h : ∀ f, v.savesTo = some f → f = file) {source : Option String}
    {Asked : List Update → Prop} {Acks : α → Prop} {t : ServerTask α}
    (ht : Dialogue v source Asked Acks t) : t.SavesWith file := by
  cases ht with
  | answered => exact .done _
  | reading => exact savesWith_ofStore file _ _
  | writing _ hwriter => exact (hwriter.savesWith h).map _

/-! ## 3. Acknowledged writes -/

/-- The step writes what was asked for, and is answered with success. -/
def ServerStep.Pays (Asked : List Update → Prop) : {β : Type} → ServerStep β → β → Prop
  | _, .store c, r => c.isWrite = true ∧ Asked c.writes ∧ ∃ a, r = .ok a
  | _, _, _ => False

/-- Whatever its steps are answered, the task acknowledges nothing before one of them has written
what was asked for. -/
def ServerTask.Owes (Asked : List Update → Prop) (Acks : α → Prop) : ServerTask α → Prop
  | .done a => ¬ Acks a
  | .step s next => ∀ r, s.Pays Asked r ∨ Owes Asked Acks (next r)

theorem ServerTask.owes_of_read {Asked : List Update → Prop} {Acks : α → Prop} (t : StoreTask β)
    {f : Except StoreFault β → α} (h : ∀ r, ¬ Acks (f r)) :
    ((ofStore t).map f).Owes Asked Acks := by
  induction t with
  | done a => exact h a
  | ask call next ih => exact fun r => .inr (ih r)

/-- Both ways to write are one call of the store, with what follows a write behind it. -/
theorem Service.Writer.exists_call {v : Service} {source : Option String} {us : List Update}
    {t : ServerTask (Except Refusal Unit)} (h : v.Writer source us t) :
    ∃ call : StoreCall Unit, call.isWrite = true ∧ call.writes = us ∧
      t = v.write (.single call) (us.map Update.id) source := by
  cases h with
  | one u =>
    obtain ⟨id, value⟩ := u
    cases value with
    | gauge x => exact ⟨.setGauge id x, rfl, rfl, rfl⟩
    | counter d => exact ⟨.addCounter id d, rfl, rfl, rfl⟩
  | all us => exact ⟨.batch us, rfl, rfl, rfl⟩

theorem Dialogue.owes {v : Service} {source : Option String} {Asked : List Update → Prop}
    {Acks : α → Prop} {t : ServerTask α} (h : Dialogue v source Asked Acks t) :
    t.Owes Asked Acks := by
  cases h with
  | answered hno => exact hno
  | reading _ hno => exact owes_of_read _ hno
  | @writing us _ f hus hwriter _ hno =>
    obtain ⟨call, hcall, hwrites, rfl⟩ := hwriter.exists_call
    intro r
    cases r with
    | ok a => exact .inl ⟨hcall, hwrites ▸ hus, a, rfl⟩
    | error e => exact .inr (hno _)

namespace ServerPool

variable {start : ServerPool α Ledger} {moves : List (PoolMove α)} {n₀ k n : Nat}

/-- At a point, the ledger accepts these updates, in one write of a task. -/
def AcceptsAt (start : ServerPool α Ledger) (moves : List (PoolMove α)) (n k : Nat)
    (us : List Update) : Prop :=
  ∃ e, start.EventAt moves n k e ∧ e.accepted?.isSome = true ∧ e.call.writes = us

section
variable {Asked : List Update → Prop} {Acks : α → Prop} {t t' : PoolTask α}

/-- Where a task can be that owes a write: it still does, or it is cancelled, or the ledger has
accepted the write. -/
inductive Owing (start : ServerPool α Ledger) (moves : List (PoolMove α)) (n₀ k : Nat)
    (Asked : List Update → Prop) (Acks : α → Prop) (n : Nat) : PoolTask α → Prop
  | owing {task : ServerTask α} : task.Owes Asked Acks →
      Owing start moves n₀ k Asked Acks n (.running task)
  | cancelled : Owing start moves n₀ k Asked Acks n .cancelled
  | accepted {p : Nat} {us : List Update} {t : PoolTask α} : n₀ < p → p < n → Asked us →
      start.AcceptsAt moves p k us → Owing start moves n₀ k Asked Acks n t

theorem Owing.mono (h : Owing start moves n₀ k Asked Acks n t) :
    Owing start moves n₀ k Asked Acks (n + 1) t := by
  cases h with
  | owing howes => exact .owing howes
  | cancelled => exact .cancelled
  | accepted hp hpn hus haccepts => exact .accepted hp (Nat.lt_succ_of_lt hpn) hus haccepts

theorem Owing.succ (hn : n₀ < n) {m : PoolMove α} (hm : moves[n]? = some m)
    (ht : (start.before moves n).tasks[k]? = some t) (h : Owing start moves n₀ k Asked Acks n t)
    (hstep : TaskStep (start.before moves n) m k t t') :
    Owing start moves n₀ k Asked Acks (n + 1) t' := by
  cases hstep with
  | same => exact h.mono
  | cancelled => exact .cancelled
  | @answered _ st next r htask hanswers =>
    cases h with
    | owing howes =>
      cases htask
      rcases howes r with hpays | howes
      · cases st with
        | store c =>
          obtain ⟨hwrite, hus, a, rfl⟩ := hpays
          obtain ⟨rfl, hr⟩ := hanswers
          refine .accepted hn (Nat.lt_succ_self n) hus ⟨⟨c, .ok a⟩, ⟨hm, ?_⟩, ?_, rfl⟩
          · rw [event?_of_store ht, ← hr]
          · exact StoreEvent.accepted?_of_isWrite hwrite fun ⟨e, he⟩ => nomatch he
        | _ => exact hpays.elim
      · exact .owing howes
    | cancelled => cases htask
    | accepted hp hpn hus haccepts => exact .accepted hp (Nat.lt_succ_of_lt hpn) hus haccepts

/-- An answer that acknowledges a write comes after the ledger has accepted what was asked for. -/
theorem accepted_of_answer {task : ServerTask α} (hstart : start.StartsAt moves n₀ k task)
    (howes : task.Owes Asked Acks) {a : α} (hacks : Acks a)
    (ha : (start.before moves n).answers[k]? = some (some a)) :
    ∃ us, Asked us ∧ ∃ p, n₀ < p ∧ p < n ∧ start.AcceptsAt moves p k us := by
  rw [answers, List.getElem?_map] at ha
  obtain ⟨t, ht, ha⟩ := Option.map_eq_some_iff.mp ha
  obtain ⟨u, hu, howing⟩ := stage_of_le (Owing start moves n₀ k Asked Acks)
    (task_of_startsAt hstart) (.owing howes) (fun n t => Owing.mono)
    (fun n m t t' hn hm ht howing hstep => howing.succ hn hm ht hstep)
    (lt_of_startsAt hstart (List.getElem?_eq_some_iff.mp ht).1)
  obtain rfl := Option.some.inj (ht.symm.trans hu)
  cases howing with
  | @owing task howes =>
    cases task with
    | done b =>
      obtain rfl := Option.some.inj ha
      exact absurd hacks howes
    | step st next => cases ha
  | cancelled => cases ha
  | accepted hp hpn hus haccepts => exact ⟨_, hus, _, hp, hpn, haccepts⟩

/-- What is accepted at a point stands in its place among all that is accepted. -/
theorem AcceptsAt.written {us : List Update} (h : start.AcceptsAt moves n k us) :
    start.written (moves.take (n + 1)) = start.written (moves.take n) ++ us := by
  obtain ⟨e, ⟨hm, he⟩, haccepted, rfl⟩ := h
  obtain ⟨c, hc⟩ := Option.isSome_iff_exists.mp haccepted
  have hmove : (moves.take (n + 1)).drop n = [.turn k] := by
    rw [List.take_add_one, hm, List.drop_append_of_le_length, List.drop_take_self]
    · rfl
    · exact (List.length_take_of_le (Nat.le_of_lt (List.getElem?_eq_some_iff.mp hm).1)).ge
  have haccepts : (start.before moves n).accepts (.turn k) = e.call.writes := by
    rw [accepts, he, Option.bind_some, hc, Option.elim_some, StoreEvent.writes_of_accepted? hc]
  rw [written_take (Nat.le_succ n), writtenBetween, hmove, ServerPool.written, haccepts,
    ServerPool.written, List.append_nil]

/-- What is accepted in one write stands together among all that is accepted. -/
theorem AcceptsAt.exists_written {us : List Update} (h : start.AcceptsAt moves n k us) :
    ∃ earlier later, start.written moves = earlier ++ us ++ later := by
  have hlt : n + 1 ≤ moves.length := by
    obtain ⟨e, he, -⟩ := h
    exact (List.getElem?_eq_some_iff.mp he.1).1
  refine ⟨start.written (moves.take n), start.writtenBetween moves (n + 1) moves.length, ?_⟩
  rw [← h.written, ← written_take hlt, List.take_length]

theorem AcceptsAt.writesAt {us : List Update} (h : start.AcceptsAt moves n k us) :
    start.WritesAt moves n k := by
  obtain ⟨e, he, haccepted, -⟩ := h
  exact ⟨e, he, haccepted⟩

end
end ServerPool
end Metering
