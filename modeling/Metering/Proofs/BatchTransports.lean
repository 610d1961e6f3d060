import Metering.Proofs.BodyDecoding
import Metering.Proofs.CallerCheck
import Metering.Proofs.JsonDocuments

/-!
A batch is the same over both transports.

A call carries entries, some of them `null`, as a document that was read before; a request carries
the text of the records that count. Two parsers take them apart, two orders of checks follow, and
two tables turn a refusal into a status. The call and the request still agree on what is written,
on what is published and on who is to blame.

Results:
1. `Metric.ofJson_kept`, `entries_batchArgs`: a document gives the same records as their text.
2. `Service.run_updateAll_cases`: a batch is refused for a fault of the store, or it is followed by
   its event.
3. `call_of_admitted`, `handle_of_admitted`: both sides are one batch of the service.
4. `batch_transports_agree`: statuses, effects and events of the two sides.
-/
namespace Metering

open JsonReader

/-! ## 1. Records out of documents -/

namespace Metric

theorem kept_toJson (m : Metric) : m.toJson.kept =
    .object ((m.delta.map fun d => ("delta", Json.int d.toInt)).toList ++
      [("id", .text m.id), ("type", .text m.kind.name)] ++
      (m.value.map fun x => ("value", Json.keptNumber (.binary x))).toList) := by
  obtain ⟨id, kind, delta, value⟩ := m
  -- The members are put in order by their keys, which are known.
  have hkept : ∀ members, Json.kept (.object members) = .object (Json.keptMembers [] members) :=
    fun _ => by rw [Json.kept]
  rw [toJson, hkept]
  cases delta with
  | none => cases value <;> rfl
  | some d =>
    cases value <;> simp only [Option.map_some, Option.map_none, Option.toList,
      Json.keptMembers, Json.kept_int, List.cons_append, List.nil_append] <;> rfl

theorem optional_delta (d : Int64) :
    JsonShape.optional (JsonShape.numberOf "i64" acceptDelta) (Json.int d.toInt) =
      .ok (some d) := by
  show some <$> acceptDelta _ = _
  rw [acceptDelta_int]
  rfl

theorem optional_reading (x : Binary64) :
    JsonShape.optional (JsonShape.numberOf "f64" acceptReading) (Json.keptNumber (.binary x)) =
      .ok ((some x).filter Binary64.isFinite) := by
  cases hx : x.isFinite with
  | true =>
    rw [Option.filter_some_pos hx, Json.keptNumber, if_pos hx]
    rfl
  | false =>
    rw [Option.filter_some_neg (by simp [hx]), Json.keptNumber, if_neg (by simp [hx])]
    rfl

/-- Taken out of its document a record is what it is when it is read from its text. -/
theorem ofJson_kept (m : Metric) : ofJson m.toJson.kept = .ok m.sent := by
  have hkind : JsonShape.variant Kind.names (.text m.kind.name) = .ok m.kind.name := by
    cases m.kind <;> rfl
  rw [kept_toJson]
  obtain ⟨id, kind, delta, value⟩ := m
  unfold ofJson JsonShape.record
  cases delta <;> cases value <;>
    simp [JsonShape.takeMembers, JsonShape.text, hkind, optional_delta, optional_reading, bind,
      Except.bind, pure, Except.pure, Kind.ofName?_name, Draft.blank, Draft.build, sent]

/-- What a record lacks is the peer's fault. -/
theorem status_of_toUpdate {m : Metric} {f : Failure} (h : m.toUpdate = .error f) :
    (Refusal.failure f).status = 400 := by
  unfold toUpdate at h
  split at h
  next =>
    obtain rfl := Except.error.inj h
    rfl
  next =>
    split at h
    next =>
      split at h
      next => cases h
      next =>
        obtain rfl := Except.error.inj h
        rfl
    next =>
      split at h
      next => cases h
      next =>
        obtain rfl := Except.error.inj h
        rfl

theorem ids_of_mapM_toUpdate {ms : List Metric} {us : List Update}
    (h : ms.mapM toUpdate = .ok us) : us.map Update.id = ms.map Metric.id := by
  induction ms generalizing us with
  | nil =>
    obtain rfl := Except.ok.inj h
    rfl
  | cons m ms ih =>
    rw [List.mapM_cons] at h
    obtain ⟨u, hu, h⟩ := Chaining.ok_of_bind h
    obtain ⟨others, hothers, hpure⟩ := Chaining.ok_of_bind h
    obtain rfl := Except.ok.inj hpure
    rw [List.map_cons, List.map_cons, ih hothers, (toUpdate_eq_ok hu).1]

end Metric

namespace Ingest

/-- The document of an entry. -/
def entryToJson (e : Option Metric) : Json := (e.map Metric.toJson).getD .null

/-- The arguments of a call with the given entries. -/
def batchArgs (es : List (Option Metric)) : Json :=
  .object [("metrics", .list (es.map entryToJson))]

theorem entry_kept (e : Option Metric) :
    entry (entryToJson e).kept = .ok (e.map Metric.sent) := by
  cases e with
  | none => rfl
  | some m =>
    have hm := m.ofJson_kept
    show JsonShape.optional Metric.ofJson m.toJson.kept = _
    rw [Metric.kept_toJson] at hm ⊢
    show some <$> Metric.ofJson _ = _
    rw [hm]
    rfl

/-- The entries of a call arrive in their order, each as it would be read from its text. -/
theorem entries_batchArgs (es : List (Option Metric)) :
    entries (batchArgs es).kept = .ok (es.map (Option.map Metric.sent)) := by
  have hitems : (es.map fun e => (entryToJson e).kept).mapM entry =
      .ok (es.map (Option.map Metric.sent)) := by
    induction es with
    | nil => rfl
    | cons e es ih =>
      rw [List.map_cons, List.mapM_cons, Chaining.bind_of_ok (entry_kept e),
        Chaining.bind_of_ok ih]
      rfl
  have hkept : (batchArgs es).kept =
      .object [("metrics", .list (es.map fun e => (entryToJson e).kept))] := by
    simp only [batchArgs, Json.kept, Json.keptMembers, Json.keptItems_eq, List.map_map]
    rfl
  rw [hkept]
  unfold entries JsonShape.record
  simp [JsonShape.takeMembers, JsonShape.list, hitems, bind, Except.bind, pure, Except.pure]

/-- Which entries count does not depend on their readings. -/
theorem counted_sent (es : List (Option Metric)) :
    counted (es.map (Option.map Metric.sent)) = (counted es).map Metric.sent := by
  unfold counted
  induction es with
  | nil => rfl
  | cons e es ih =>
    cases e with
    | none => exact ih
    | some m =>
      simp only [List.map_cons, Option.map_some, List.filterMap_cons, id_eq, List.filter_cons]
      have hid : m.sent.id = m.id := rfl
      rw [hid]
      split
      next => exact congrArg (m.sent :: ·) ih
      next => exact ih

end Ingest

/-! ## 2. One batch of the service -/

/-- Saving publishes nothing and takes no time. -/
theorem SnapshotFile.run_saveTask_quiet (file : SnapshotFile) (store : Store σ)
    (s : ServerState σ) :
    (file.saveTask.run store s).2.inboxes = s.inboxes ∧
      (file.saveTask.run store s).2.time = s.time := by
  simp only [saveTask, ServerTask.run, ServerTask.run_andThen, ServerTask.run_ofStore,
    ServerStep.take]
  split
  next => exact ⟨rfl, rfl⟩
  next =>
    simp only [ServerTask.run, ServerStep.take]
    split <;> exact ⟨rfl, rfl⟩

namespace Service

theorem run_afterWrite_inboxes (v : Service) (ids : List String) (source : Option String)
    (store : Store σ) (s : ServerState σ) :
    ((v.afterWrite ids source).run store s).2.inboxes =
      if v.audits then s.inboxes.publish ⟨s.time, ids, source.getD ""⟩ else s.inboxes := by
  obtain ⟨savesTo, audits⟩ := v
  cases savesTo with
  | none => cases audits <;> rfl
  | some file =>
    obtain ⟨hinboxes, htime⟩ := file.run_saveTask_quiet store s
    unfold afterWrite
    dsimp only
    rw [ServerTask.run_andThen]
    cases audits with
    | true =>
      show Inboxes.publish _ _ = _
      rw [hinboxes, htime]
      rfl
    | false => exact hinboxes

/-- A batch is refused for a fault of the store and nothing is published, or it is accepted and
its event is. -/
theorem run_updateAll_cases (v : Service) (us : List Update) (source : Option String)
    (store : Store σ) (s : ServerState σ) :
    (((v.updateAll us source).run store s).1 = .ok () ∧
      ((v.updateAll us source).run store s).2.inboxes =
        if v.audits then s.inboxes.publish ⟨s.time, us.map Update.id, source.getD ""⟩
        else s.inboxes) ∨
    ∃ e, ((v.updateAll us source).run store s).1 = .error (.fault e) ∧
      ((v.updateAll us source).run store s).2.inboxes = s.inboxes := by
  rw [updateAll, write, ServerTask.run_andThen, ServerTask.run_ofStore]
  cases ((StoreTask.single (.batch us)).run store s.store).1 with
  | error e => exact .inr ⟨e, rfl, rfl⟩
  | ok =>
    refine .inl ?_
    dsimp only
    rw [ServerTask.run_map]
    exact ⟨rfl, run_afterWrite_inboxes v _ source store _⟩

end Service

namespace Ingest

/-! ## 3. The two sides -/

/-- A call that carries the entries. -/
structure BatchCall (es : List (Option Metric)) (c : RpcCall) : Prop where
  method : c.method = updateMethod
  args : c.args = (batchArgs es).kept

/-- A request that carries those of the entries that count. Its body may be sealed and compressed,
as long as it can be taken in. -/
structure BatchRequest (i : Ingest) (es : List (Option Metric)) (r : HttpRequest) : Prop where
  post : r.method = "POST"
  path : Resource.ofPath? r.uri.path = some .updates
  body : i.keys.unwrap (r.headers.payload r.body) = .ok (Metric.encodeList (counted es))
  short : r.body.length ≤ maxMessageSize

/-- An address that may write. -/
def Admits (i : Ingest) (address : Option String) : Prop :=
  ∀ n ∈ i.network, n.check address = .ok ()

/-- The statuses of a reply and of an answer that say the same. -/
inductive SameStatus : RpcStatus → Nat → Prop
  | ok : SameStatus .ok 200
  | invalid : SameStatus .invalidArgument 400
  | internal : SameStatus .internal 500

theorem refusedReply_ne_ok (id : UInt64) (e : Refusal) : (refusedReply id e).status ≠ .ok := by
  simp only [refusedReply, RpcReply.failed]
  split <;> simp

/-- A fault of the store is blamed on the same end. -/
theorem sameStatus_refused (id : UInt64) (e : StoreFault) :
    SameStatus (refusedReply id (.fault e)).status (Refusal.fault e).status := by
  by_cases hkind : e.kind = .counterOverflow
  · simp only [refusedReply, RpcReply.failed, Refusal.status, if_pos hkind]
    exact .invalid
  · simp only [refusedReply, RpcReply.failed, Refusal.status, if_neg hkind]
    exact .internal

/-- The reply to a call that is one batch. -/
def batchReply (id : UInt64) : Except Refusal Unit → RpcReply
  | .ok () => .success id emptyResult
  | .error e => refusedReply id e

/-- One batch of the service, answered over both transports. -/
theorem agree_of_updates (v : Service) (us : List Update) (address : Option String) (id : UInt64)
    (text : Bytes) (store : Store σ) (s : ServerState σ) :
    let reply := ((v.updateAll us address).map (batchReply id)).run store s
    let answer := (answering (v.updateAll us address) fun _ => .json text).run store s
    SameStatus reply.1.status answer.1.status ∧ answer.2 = reply.2 ∧
      reply.2.inboxes =
        if reply.1.status = .ok ∧ v.audits = true then
          s.inboxes.publish ⟨s.time, us.map Update.id, address.getD ""⟩
        else s.inboxes := by
  intro reply answer
  have hreply : reply = _ := ServerTask.run_map store (batchReply id) (v.updateAll us address) s
  have hanswer : answer = _ := run_answering store (v.updateAll us address) _ s
  have heffects : answer.2 = reply.2 := by rw [hanswer, hreply]
  rcases v.run_updateAll_cases us address store s with ⟨hok, hinboxes⟩ | ⟨e, herror, hinboxes⟩
  · rw [hok] at hreply hanswer
    have hstatus : reply.1.status = .ok := by rw [hreply]; rfl
    have hanswered : answer.1.status = 200 := by rw [hanswer]; rfl
    refine ⟨by rw [hstatus, hanswered]; exact .ok, heffects, ?_⟩
    rw [hstatus, hreply, hinboxes]
    simp only [true_and]
  · rw [herror] at hreply hanswer
    have hrefused : reply.1.status = (refusedReply id (.fault e)).status := by rw [hreply]; rfl
    have hanswered : answer.1.status = (Refusal.fault e).status := by rw [hanswer]; rfl
    refine ⟨by rw [hrefused, hanswered]; exact sameStatus_refused id e, heffects, ?_⟩
    rw [if_neg fun hboth => refusedReply_ne_ok id _ (hrefused ▸ hboth.1), hreply]
    exact hinboxes

/-- The updates that the entries stand for. -/
def batchUpdates (es : List (Option Metric)) : Except Failure (List Update) :=
  ((counted es).map Metric.sent).mapM Metric.toUpdate

theorem ids_of_batchUpdates {es : List (Option Metric)} {us : List Update}
    (h : batchUpdates es = .ok us) : us.map Update.id = (counted es).map Metric.id := by
  rw [Metric.ids_of_mapM_toUpdate h, List.map_map]
  rfl

theorem status_of_batchUpdates {es : List (Option Metric)} {f : Failure}
    (h : batchUpdates es = .error f) : (Refusal.failure f).status = 400 := by
  obtain ⟨m, -, hm⟩ := Chaining.error_of_mapM h
  exact Metric.status_of_toUpdate hm

section
variable {i : Ingest} {es : List (Option Metric)} {c : RpcCall} {r : HttpRequest}

/-- A call from an address that may write is one batch, if there is anything to write. -/
theorem call_of_admitted (h : BatchCall es c) (hadmits : i.Admits c.realIp) :
    i.call c = match batchUpdates es with
      | .error f => .done (.failed c.id .invalidArgument f.message)
      | .ok [] => .done (.success c.id emptyResult)
      | .ok us => (i.service.updateAll us c.realIp).map (batchReply c.id) := by
  have hcall : i.call c = i.updateCall c := by
    unfold call
    rw [if_pos h.method]
    cases hn : i.network with
    | none => rfl
    | some n => dsimp only; rw [hadmits n hn]
  rw [hcall, updateCall, h.args, entries_batchArgs]
  dsimp only
  rw [counted_sent]
  rfl

/-- A request from an address that may write is the same batch, if there is anything to write and
its text is no longer than a body may be. -/
theorem handle_of_admitted (hkey : i.keys.signing = none) (h : BatchRequest i es r)
    (hadmits : i.Admits (source r)) (hcounts : counted es ≠ [])
    (hfits : (Metric.encodeList (counted es)).length ≤ maxBody) :
    ∃ inner, i.received r = .ok inner ∧ i.dispatch inner = match batchUpdates es with
      | .error f => refuse f
      | .ok us => answering (i.service.updateAll us (source r))
        fun _ => .json (Metric.encodeList ((counted es).map Metric.sent)) := by
  have hcaller : i.checkCaller r = .ok () := by
    unfold checkCaller
    cases hn : i.network with
    | none => rfl
    | some n =>
      dsimp only
      rw [hadmits n hn]
      split <;> rfl
  have hreceived := received_payload hcaller h.short
  rw [h.body] at hreceived
  obtain ⟨inner, hr, hbody, hmethod, huri, -, hsource⟩ := hreceived
  have hpath : Resource.ofPath? inner.uri.path = some .updates := huri ▸ h.path
  have hne : (counted es).map Metric.sent ≠ [] := fun hnil => hcounts (List.map_eq_nil_iff.mp hnil)
  have hverify : i.keys.verify inner.body (inner.headers.text? Headers.signature) = .ok () := by
    rw [WireKeys.verify, hkey]
  refine ⟨inner, hr, ?_⟩
  rw [dispatch_of_post hpath (hmethod.trans h.post) rfl, endpoint, updates,
    withBody_of_short (hbody ▸ hfits), hverify]
  dsimp only
  rw [parsed, hbody, Metric.decodeList_sent]
  dsimp only
  rw [if_neg hne, hsource]
  rfl

end

/-! ## 4. Agreement -/

/-- Without an address that may write, both sides are refused and change nothing. -/
theorem refused_of_not_admitted {i : Ingest} {es : List (Option Metric)} {c : RpcCall}
    {r : HttpRequest} (h : BatchRequest i es r) (haddress : source r = c.realIp)
    (hout : ¬ i.Admits c.realIp) (store : Store σ) (s : ServerState σ) :
    ((i.call c).run store s).1.status = .permissionDenied ∧ ((i.call c).run store s).2 = s ∧
      ((i.handle r).run store s).1.status = 403 ∧ ((i.handle r).run store s).2 = s := by
  obtain ⟨n, hn, hcheck⟩ : ∃ n ∈ i.network, n.check c.realIp ≠ .ok () := by
    simpa only [Admits, not_forall, exists_prop] using hout
  cases hf : n.check c.realIp with
  | ok => exact absurd hf hcheck
  | error f =>
    have hwrite : mayWrite r = true := mayWrite_of_isWrite ⟨h.post, _, h.path, rfl⟩
    rw [call_of_outside hn hf, handle_of_outside hn hwrite (haddress ▸ hf)]
    refine ⟨rfl, rfl, ?_, rfl⟩
    simp only [ServerTask.run, present_status]
    exact status_of_outside hf

/-- A batch is the same over both transports, whatever the store.

* With no entry that counts, a call from an address that may write succeeds and changes nothing.
* From an address that may not write, a call and a request are refused and change nothing.
* With entries that count, whose text is no longer than a body may be, and with no key for
  signatures, a call and a request from the same address leave the same state behind: the store,
  the file and the audit trail. There is one event with the ids of these entries and the address
  if the write was accepted, and none otherwise, and the statuses say the same. -/
theorem batch_transports_agree (i : Ingest) (es : List (Option Metric)) {c : RpcCall}
    (hc : BatchCall es c) (store : Store σ) (s : ServerState σ) :
    let reply := (i.call c).run store s
    (i.Admits c.realIp → counted es = [] → reply.1.status = .ok ∧ reply.2 = s) ∧
    ∀ r, BatchRequest i es r → source r = c.realIp →
      let answer := (i.handle r).run store s
      (¬ i.Admits c.realIp → reply.1.status = .permissionDenied ∧ reply.2 = s ∧
        answer.1.status = 403 ∧ answer.2 = s) ∧
      (i.Admits c.realIp → counted es ≠ [] → i.keys.signing = none →
        (Metric.encodeList (counted es)).length ≤ maxBody →
        SameStatus reply.1.status answer.1.status ∧ answer.2 = reply.2 ∧
        reply.2.inboxes =
          if reply.1.status = .ok ∧ i.service.audits = true then
            s.inboxes.publish ⟨s.time, (counted es).map Metric.id, c.realIp.getD ""⟩
          else s.inboxes) := by
  intro reply
  refine ⟨fun hadmits hnil => ?_, fun r hr haddress => ⟨fun hout => ?_, ?_⟩⟩
  · have hcall : i.call c = .done (.success c.id emptyResult) := by
      rw [call_of_admitted hc hadmits, batchUpdates, hnil]
      rfl
    simp only [reply, hcall, ServerTask.run, RpcReply.success]
    exact ⟨trivial, trivial⟩
  · exact refused_of_not_admitted hr haddress hout store s
  · intro hadmits hcounts hkey hfits
    have hcall := call_of_admitted hc hadmits
    obtain ⟨inner, hinner, hdispatch⟩ :=
      handle_of_admitted hkey hr (haddress ▸ hadmits) hcounts hfits
    obtain ⟨hstatus, heffect⟩ := run_handle_of_received hinner store s
    rw [hdispatch, haddress] at hstatus heffect
    cases hus : batchUpdates es with
    | error f =>
      rw [hus] at hcall hstatus heffect
      have hreply : reply = (.failed c.id .invalidArgument f.message, s) := by
        simp only [reply, hcall, ServerTask.run]
      have hanswer : ((i.handle r).run store s).1.status = 400 :=
        hstatus.trans (status_of_batchUpdates hus)
      rw [hreply, hanswer, heffect]
      exact ⟨.invalid, rfl, rfl⟩
    | ok us =>
      have hids := ids_of_batchUpdates hus
      have hbatch : i.call c = (i.service.updateAll us c.realIp).map (batchReply c.id) := by
        rw [hcall, hus]
        cases us with
        | nil => exact absurd (List.map_eq_nil_iff.mp hids.symm) hcounts
        | cons u us => rfl
      have hreply : reply =
          ((i.service.updateAll us c.realIp).map (batchReply c.id)).run store s :=
        congrArg (fun t : ServerTask RpcReply => t.run store s) hbatch
      obtain ⟨hsame, heffects, hinboxes⟩ := agree_of_updates i.service us c.realIp c.id
        (Metric.encodeList ((counted es).map Metric.sent)) store s
      rw [hus] at hstatus heffect
      rw [hids] at hinboxes
      rw [hreply, hstatus, heffect]
      exact ⟨hsame, heffects, hinboxes⟩

/-- A call with an entry that is `null`, one without an id or a value and one that adds five, and
the request that only adds five. -/
theorem batch_transports_agree_counter :
    let i : Ingest := ⟨.none, none, ⟨none, true⟩⟩
    let es : List (Option Metric) :=
      [none, some ⟨"", .gauge, none, none⟩, some ⟨"c", .counter, some 5, none⟩]
    let c : RpcCall := ⟨1, updateMethod, (batchArgs es).kept, [("x-real-ip", "10.0.0.1")]⟩
    let r : HttpRequest := ⟨"POST", ⟨none, "", "/updates/", none⟩,
      [(Headers.realIp, Bytes.ofText "10.0.0.1")], Metric.encodeList (counted es)⟩
    let s : ServerState Ledger := ⟨.empty, ⟨.empty⟩, [[]], 0⟩
    ((i.handle r).run Ledger.store s).1.status = 200 ∧
      ((i.handle r).run Ledger.store s).2 = ((i.call c).run Ledger.store s).2 ∧
      ((i.call c).run Ledger.store s).2.inboxes = [[⟨0, ["c"], "10.0.0.1"⟩]] := by
  intro i es c r s
  have hc : BatchCall es c := ⟨rfl, rfl⟩
  have hr : BatchRequest i es r :=
    ⟨rfl, by decide +kernel, by decide +kernel, by decide +kernel⟩
  have haddress : source r = c.realIp := by decide +kernel
  have hstatus : ((i.call c).run Ledger.store s).1.status = .ok := by decide +kernel
  obtain ⟨hboth, heffects, hinboxes⟩ :=
    ((batch_transports_agree i es hc Ledger.store s).2 r hr haddress).2
      (fun n hn => nomatch hn) (by decide +kernel) rfl (by decide +kernel)
  rw [hstatus] at hboth hinboxes
  refine ⟨?_, heffects, hinboxes.trans (by decide +kernel)⟩
  generalize ((i.handle r).run Ledger.store s).1.status = status at hboth
  cases hboth
  rfl

end Ingest
end Metering
