import Metering.Proofs.BodyDecoding
import Metering.Proofs.PathTexts
import Metering.Proofs.RestartIdentity
import Metering.Proofs.SignedAnswers
import Metering.Rpc.Connection

/-!
All ways of reading a metric say the same.

A value can be asked for by a path, and comes as a plain text; it can be asked for by a record, and
comes as a record in JSON; and it stands in the export. Each way has a spelling of its own, and a
question can be spelled in many ways itself. All of them come down to one look at the ledger, and
the ledger says what the accepted writes of the past say.

The past is a list of requests and messages of calls, answered one after another (`Incoming`). What
each of them wrote is told from its answer and from what it spells, not from the ledger (`Wrote`).

Results:
1. `History.foldlM`: the ledger is what the accepted writes leave.
2. `AsksByPath.answer`, `AsksByRecord.answer`: what the two questions are answered.
3. `Ledger.mem_toRecords`: what the export holds.
4. `read_surfaces_agree`: the three say the same, and it is what the history says.
-/
namespace Metering

open Update (Mention lastReading? counterSum)

namespace Ingest

/-! ## 1. Histories -/

/-- What a server is sent: a request, or the message of a call. -/
inductive Incoming
  | request (r : HttpRequest)
  | message (text : Bytes)

/-- Calls that are handled one at a time. -/
def handler (i : Ingest) : CallHandler (ServerState Ledger) := fun c s =>
  (i.call c).run Ledger.store s

/-- What an incoming request or message leaves, if it is answered alone. -/
def after (i : Ingest) (s : ServerState Ledger) : Incoming → ServerState Ledger
  | .request r => ((i.handle r).run Ledger.store s).2
  | .message text => (Conversation.reply i.handler text s).2

/-- The updates that a request or a message has written. What is answered with success has written
the updates that it spells; everything else has written nothing. -/
inductive Wrote (i : Ingest) (s : ServerState Ledger) : Incoming → List Update → Prop
  | request {r : HttpRequest} {us : List Update} :
    ((i.handle r).run Ledger.store s).1.isSuccess = true → Requests i r us →
    Wrote i s (.request r) us
  | refused {r : HttpRequest} :
    ((i.handle r).run Ledger.store s).1.isSuccess = false → Wrote i s (.request r) []
  | other {r : HttpRequest} : ¬ IsWrite r → Wrote i s (.request r) []
  | call {text : Bytes} {c : RpcCall} {es : List (Option Metric)} {us : List Update} :
    RpcCall.decode text = .ok c → (i.handler c s).1.status = .ok → entries c.args = .ok es →
    (counted es).mapM Metric.toUpdate = .ok us → Wrote i s (.message text) us
  | refusedCall {text : Bytes} {c : RpcCall} :
    RpcCall.decode text = .ok c → (i.handler c s).1.status ≠ .ok → Wrote i s (.message text) []
  | noCall {text : Bytes} {e : JsonFault} :
    RpcCall.decode text = .error e → Wrote i s (.message text) []

/-- The updates that were written by requests and messages that came one after another, in order. -/
inductive History (i : Ingest) : ServerState Ledger → List Incoming → List Update → Prop
  | nil {s : ServerState Ledger} : History i s [] []
  | cons {s : ServerState Ledger} {q : Incoming} {sent : List Incoming} {us vs : List Update} :
    Wrote i s q us → History i (i.after s q) sent vs → History i s (q :: sent) (us ++ vs)

variable {i : Ingest} {s : ServerState Ledger}

theorem after_message_of_decode {text : Bytes} {c : RpcCall} (h : RpcCall.decode text = .ok c) :
    i.after s (.message text) = (i.handler c s).2 := by
  unfold after Conversation.reply
  dsimp only
  rw [h]

/-- The updates that a request spells can be held by a file. -/
theorem Requests.sound {r : HttpRequest} {us : List Update} (h : Requests i r us) :
    ∀ u ∈ us, u.Sound := by
  obtain ⟨inner, resource, -, -, -, hd⟩ := h
  cases hd with
  | path _ _ _ hid _ hvalue =>
    intro u hu
    obtain rfl := List.mem_singleton.mp hu
    exact ⟨hid, Value.isEncodable_of_parse hvalue⟩
  | record _ hm hu =>
    intro u hmem
    obtain rfl := List.mem_singleton.mp hmem
    exact Metric.sound_of_toUpdate (Metric.finite_of_decode hm) hu
  | list _ hms _ hus => exact Metric.sound_of_mapM_toUpdate (Metric.finite_of_decodeList hms) hus

/-- So can those of a call. -/
theorem sound_of_counted {text : Bytes} {c : RpcCall} {es : List (Option Metric)}
    {us : List Update} (htext : RpcCall.decode text = .ok c) (hes : entries c.args = .ok es)
    (hus : (counted es).mapM Metric.toUpdate = .ok us) : ∀ u ∈ us, u.Sound := by
  refine Metric.sound_of_mapM_toUpdate (fun m hm => ?_) hus
  obtain ⟨o, ho, hom⟩ := List.mem_filterMap.mp (List.mem_of_mem_filter hm)
  exact finite_of_entries (RpcCall.writable_of_decode htext) hes o ho m hom

theorem Wrote.sound {q : Incoming} {us : List Update} (h : Wrote i s q us) : ∀ u ∈ us, u.Sound := by
  cases h with
  | request _ hreq => exact hreq.sound
  | call htext _ hes hus => exact sound_of_counted htext hes hus
  | refused _ => exact fun u hu => nomatch hu
  | other _ => exact fun u hu => nomatch hu
  | refusedCall _ _ => exact fun u hu => nomatch hu
  | noCall _ => exact fun u hu => nomatch hu

/-- A request that is not answered with success leaves everything as it was. -/
theorem run_handle_of_refused {r : HttpRequest}
    (h : ((i.handle r).run Ledger.store s).1.isSuccess = false) :
    ((i.handle r).run Ledger.store s).2 = s := by
  by_cases hw : IsWrite r
  · rcases run_handle_of_write i hw s with ⟨us, -, source, hc⟩ | ⟨-, -, hsame⟩
    · unfold Commits at hc
      split at hc
      next =>
        rw [isSuccess_of_status hc.1] at h
        cases h
      next => exact hc.2
    · exact hsame
  · exact run_handle_of_not_write i hw s

/-- A request that is answered with success leaves what it spells. -/
theorem foldlM_of_success {r : HttpRequest} {us : List Update} (hreq : Requests i r us)
    (h : ((i.handle r).run Ledger.store s).1.isSuccess = true) :
    us.foldlM Ledger.apply s.store = .ok ((i.handle r).run Ledger.store s).2.store := by
  rcases run_handle_of_write i hreq.isWrite s with ⟨us', hreq', source, hc⟩ | ⟨hnone, -⟩
  · obtain rfl := hreq.unique hreq'
    unfold Commits at hc
    split at hc
    next l hfold => rw [hfold, hc.2, Service.followed_store]
    next e _ =>
      have hstatus := hc.1 ▸ Refusal.status_ge (.fault e)
      rw [not_isSuccess_of_status hstatus] at h
      cases h
  · exact absurd hreq (hnone us)

/-- What was written is what the ledger has changed by. -/
theorem Wrote.foldlM {q : Incoming} {us : List Update} (h : Wrote i s q us) :
    us.foldlM Ledger.apply s.store = .ok (i.after s q).store := by
  cases h with
  | request hsuccess hreq => exact foldlM_of_success hreq hsuccess
  | refused hfails =>
    show Except.ok s.store = .ok ((i.handle _).run Ledger.store s).2.store
    rw [run_handle_of_refused hfails]
  | other hw =>
    show Except.ok s.store = .ok ((i.handle _).run Ledger.store s).2.store
    rw [run_handle_of_not_write i hw]
  | @call text c es us htext hstatus hes hus =>
    rw [after_message_of_decode htext]
    rcases run_call_cases i c s with ⟨hfails, -⟩ | ⟨es', us', -, hes', hus', -, hfold, -⟩
    · exact absurd hstatus hfails
    · obtain rfl := Except.ok.inj (hes.symm.trans hes')
      obtain rfl := Except.ok.inj (hus.symm.trans hus')
      exact hfold
  | @refusedCall text c htext hstatus =>
    rw [after_message_of_decode htext]
    rcases run_call_cases i c s with ⟨-, hsame⟩ | ⟨es, us, -, -, -, hok, -⟩
    · exact congrArg (fun s : ServerState Ledger => Except.ok s.store) hsame.symm
    · exact absurd hok hstatus
  | @noCall text e htext =>
    unfold after Conversation.reply
    dsimp only
    rw [htext]
    rfl

/-- Whatever comes in, it is settled what it has written. -/
theorem exists_wrote (i : Ingest) (s : ServerState Ledger) (q : Incoming) :
    ∃ us, Wrote i s q us := by
  cases q with
  | request r =>
    by_cases hw : IsWrite r
    · cases hsuccess : ((i.handle r).run Ledger.store s).1.isSuccess with
      | false => exact ⟨[], .refused hsuccess⟩
      | true =>
        rcases run_handle_of_write i hw s with ⟨us, hreq, -⟩ | ⟨-, hstatus, -⟩
        · exact ⟨us, .request hsuccess hreq⟩
        · rw [not_isSuccess_of_status hstatus] at hsuccess
          cases hsuccess
    · exact ⟨[], .other hw⟩
  | message text =>
    cases htext : RpcCall.decode text with
    | error e => exact ⟨[], .noCall htext⟩
    | ok c =>
      rcases run_call_cases i c s with ⟨hfails, -⟩ | ⟨es, us, -, hes, hus, hok, -⟩
      · exact ⟨[], .refusedCall htext hfails⟩
      · exact ⟨us, .call htext hok hes hus⟩

theorem exists_history (i : Ingest) (s : ServerState Ledger) (sent : List Incoming) :
    ∃ us, History i s sent us := by
  induction sent generalizing s with
  | nil => exact ⟨[], .nil⟩
  | cons q sent ih =>
    obtain ⟨us, hus⟩ := exists_wrote i s q
    obtain ⟨vs, hvs⟩ := ih (i.after s q)
    exact ⟨us ++ vs, .cons hus hvs⟩

/-- The ledger is what the writes of its history leave. -/
theorem History.foldlM {sent : List Incoming} {us : List Update} (h : History i s sent us) :
    us.foldlM Ledger.apply s.store = .ok (sent.foldl i.after s).store := by
  induction h with
  | nil => rfl
  | cons hwrote _ ih =>
    rw [List.foldlM_append, hwrote.foldlM]
    exact ih

theorem History.sound {sent : List Incoming} {us : List Update} (h : History i s sent us) :
    ∀ u ∈ us, u.Sound := by
  induction h with
  | nil => exact fun u hu => nomatch hu
  | cons hwrote _ ih => exact List.forall_mem_append.mpr ⟨hwrote.sound, ih⟩

/-! ## 2. Two questions -/

/-- A request asks for the value of a metric by its path. -/
structure AsksByPath (i : Ingest) (kind : Kind) (id : String) (r : HttpRequest) : Prop where
  method : r.method = "GET"
  path : ∃ raw, Resource.Spells raw id ∧ r.uri.path = Resource.valuePath kind raw
  received : ∃ inner, i.received r = .ok inner

/-- A request asks for the value of a metric by a record. -/
structure AsksByRecord (i : Ingest) (kind : Kind) (id : String) (r : HttpRequest) : Prop where
  method : r.method = "POST"
  path : Resource.ofPath? r.uri.path = some .value
  record : ∃ inner m, i.received r = .ok inner ∧ SoundBody i inner ∧
    Metric.decode inner.body = .ok m ∧ m.id = id ∧ m.kind = kind

/-- What a caller has to read an answer with. -/
def callerKeys (i : Ingest) : WireKeys := ⟨i.keys.signing, .none, .none⟩

/-- Whoever has the key, if there is one, reads the answer of an endpoint back. -/
theorem decode_finish (i : Ingest) (acceptsGzip : Bool) {a : HttpResponse} (h : Bare a) :
    i.callerKeys.decode ((i.finish acceptsGzip a).headers.payload (i.finish acceptsGzip a).body) =
      .ok a.body := by
  cases hkey : i.keys.signing with
  | some key =>
    have hsigned := (signedAnswer_finish hkey acceptsGzip h).decode
    unfold callerKeys
    rw [hkey]
    exact hsigned
  | none =>
    have hunwrap := (carries_finish i acceptsGzip h).unwrap .none
    unfold callerKeys
    rw [hkey, WireKeys.decode_of_unwrap hunwrap]
    rfl

theorem AsksByPath.answer {kind : Kind} {id : String} {r : HttpRequest}
    (h : AsksByPath i kind id r) (hid : id ≠ "") (s : ServerState Ledger) :
    match s.store.get? kind id with
    | some v => ((i.handle r).run Ledger.store s).1.status = 200 ∧
        ((i.handle r).run Ledger.store s).1.body = Bytes.ofText v.text
    | none => ((i.handle r).run Ledger.store s).1.status = 404 := by
  obtain ⟨hmethod, ⟨raw, hraw, hpath⟩, inner, hr⟩ := h
  obtain ⟨hm, hu⟩ := received_target hr
  have hresource : Resource.ofPath? r.uri.path = some (.valueAt kind.name raw) := by
    rw [hpath, Resource.ofPath?_valuePath kind hraw hid]
  have hpresent (a : HttpResponse) : present r a = a := by
    unfold present
    rw [hresource, hmethod]
    rfl
  have hdispatch : i.dispatch inner =
      answering (Service.read kind id) fun v => .plain 200 v.text := by
    unfold dispatch
    rw [hu, hresource, hm, hmethod]
    show valueAt kind.name raw = _
    unfold valueAt Kind.parse
    rw [Resource.part_name, hraw.part_eq]
    simp only [bind, Except.bind, pure, Except.pure, Kind.ofName?_name]
  rw [handle_of_received hr, hdispatch, ServerTask.run_map, ServerTask.run_map, run_answering,
    Service.run_read]
  dsimp only
  rw [hpresent, finish_status]
  cases s.store.get? kind id with
  | none => rfl
  | some v => exact ⟨rfl, finish_plain _ _ _⟩

theorem AsksByRecord.answer {kind : Kind} {id : String} {r : HttpRequest}
    (h : AsksByRecord i kind id r) (hid : id ≠ "") (s : ServerState Ledger) :
    match s.store.get? kind id with
    | some v => ((i.handle r).run Ledger.store s).1.status = 200 ∧
        i.callerKeys.decode (((i.handle r).run Ledger.store s).1.headers.payload
          ((i.handle r).run Ledger.store s).1.body) = .ok (Metric.ofUpdate ⟨id, v⟩).encode
    | none => ((i.handle r).run Ledger.store s).1.status = 404 := by
  obtain ⟨hmethod, hpath, inner, m, hr, hsound, hdecode, rfl, rfl⟩ := h
  obtain ⟨hm, hu⟩ := received_target hr
  have hdispatch : i.dispatch inner = answering (Service.read m.kind m.id) fun v =>
      .json (Metric.ofUpdate ⟨m.id, v⟩).encode := by
    rw [dispatch_of_not_read (hu ▸ hpath) (hm.trans hmethod) rfl]
    unfold endpoint value
    rcases withBody_cases i inner Metric.decode _ with ⟨-, m', hm', hnext⟩ | ⟨hbad, -⟩
    · obtain rfl := Except.ok.inj (hdecode.symm.trans hm')
      rw [hnext, if_neg hid]
    · exact absurd ⟨hsound, m, hdecode⟩ hbad
  rw [handle_of_received hr, hdispatch, ServerTask.run_map, ServerTask.run_map, run_answering,
    Service.run_read]
  dsimp only
  rw [present_of_not_read hpath hmethod rfl, finish_status]
  cases s.store.get? m.kind m.id with
  | none => rfl
  | some v => exact ⟨rfl, decode_finish i _ (bare_json _)⟩

/-! Both questions can be asked of every metric whose path is an address. -/

/-- The question by path, without any fields. -/
def valueRequest (kind : Kind) (id : String) : HttpRequest :=
  ⟨"GET", ⟨none, "", Resource.valuePath kind (Percent.escape id), none⟩, [], []⟩

/-- The question by record, with the signature that the server asks for. -/
def valueQuery (i : Ingest) (kind : Kind) (id : String) : HttpRequest :=
  let body := (Metric.query id kind).encode
  ⟨"POST", ⟨none, "", "/value", none⟩,
    ((i.keys.sign body).map fun tag => (Headers.signature, Bytes.ofText tag)).toList, body⟩

/-- A request without marks that may not write passes the layers as it is. -/
theorem received_of_unmarked {r : HttpRequest} (hwrite : mayWrite r = false)
    (hsealed : r.headers.isSealed = false) (hgzip : r.headers.isGzip = false) :
    i.received r = .ok r := by
  have hopened : i.opened r = .ok r := by
    unfold opened
    rw [hsealed, Bool.and_false]
    rfl
  unfold received
  rw [Chaining.bind_of_ok (checkCaller_of_not_mayWrite hwrite), Chaining.bind_of_ok hopened]
  unfold inflated
  rw [hgzip]
  rfl

theorem asksByPath_valueRequest (i : Ingest) (kind : Kind) (id : String) :
    AsksByPath i kind id (valueRequest kind id) where
  method := rfl
  path := ⟨_, Resource.spells_escape id, rfl⟩
  received := by
    have hmethod : ("GET" == "POST") = false := by decide
    exact ⟨_, received_of_unmarked (Bool.and_eq_false_iff.mpr (.inl hmethod)) rfl rfl⟩

theorem length_quote_le (s : String) : (Json.quote s).length ≤ 6 * (Bytes.ofText s).length + 2 := by
  have hbyte : ∀ b, (Json.escapeByte b).length ≤ 6 := Bytes.forall_byte (by decide +kernel)
  have hbytes (bs : Bytes) : (bs.flatMap Json.escapeByte).length ≤ 6 * bs.length := by
    induction bs with
    | nil => exact Nat.le_refl _
    | cons b bs ih =>
      have := hbyte b
      rw [List.flatMap_cons, List.length_append, List.length_cons]
      omega
  have := hbytes (Bytes.ofText s)
  unfold Json.quote
  simp only [List.length_cons, List.length_append, List.length_nil]
  omega

/-- What can be asked for by a path can be asked for by a record. -/
theorem length_query_le {kind : Kind} {id : String}
    (h : (Bytes.ofText (Resource.valuePath kind (Percent.escape id))).length ≤ Uri.maxLength) :
    (Metric.query id kind).encode.length ≤ maxBody := by
  have hid : (Bytes.ofText id).length ≤ Uri.maxLength := by
    rw [Resource.ofText_valuePath, List.length_map, List.length_append] at h
    have := Percent.length_le_encode (Bytes.ofText id)
    omega
  have hquote := length_quote_le id
  have hkind : (Json.quote kind.name).length ≤ 9 := by cases kind <;> decide +kernel
  have hkeys : (Json.quote "id").length = 4 ∧ (Json.quote "type").length = 6 := by decide +kernel
  have htext : (Metric.query id kind).encode =
      0x7b :: (Json.quote "id" ++ 0x3a :: Json.quote id ++
        0x2c :: (Json.quote "type" ++ 0x3a :: Json.quote kind.name ++ [0x7d])) := by
    unfold Metric.encode Metric.toJson
    simp [Metric.query, Json.write, Json.writeMembers]
  rw [htext]
  unfold Uri.maxLength at hid
  unfold maxBody
  simp only [List.length_cons, List.length_append, List.length_nil, hkeys]
  omega

/-- The only mark of the question by record is its signature, and that is good. -/
theorem marks_valueQuery (i : Ingest) (kind : Kind) (id : String) :
    let r := i.valueQuery kind id
    r.headers.isSealed = false ∧ r.headers.isGzip = false ∧
      i.keys.verify r.body (r.headers.text? Headers.signature) = .ok () := by
  intro r
  cases hkey : i.keys.signing with
  | none =>
    have hheaders : r.headers = [] := by
      show ((i.keys.sign _).map _).toList = []
      unfold WireKeys.sign
      rw [hkey]
      rfl
    rw [hheaders]
    refine ⟨rfl, rfl, ?_⟩
    unfold WireKeys.verify
    rw [hkey]
  | some key =>
    have hheaders : r.headers = [(Headers.signature, Bytes.ofText (key.sign r.body))] := by
      show ((i.keys.sign _).map _).toList = _
      unfold WireKeys.sign
      rw [hkey]
      rfl
    have htext : Headers.text? [(Headers.signature, Bytes.ofText (key.sign r.body))]
        Headers.signature = some (key.sign r.body) :=
      Headers.text?_of_values rfl (key.visible_sign _).plainText?_ofText
    rw [hheaders]
    refine ⟨rfl, rfl, ?_⟩
    unfold WireKeys.verify
    rw [hkey, htext]
    exact key.verify_sign _

theorem asksByRecord_valueQuery (i : Ingest) {kind : Kind} {id : String}
    (h : (Bytes.ofText (Resource.valuePath kind (Percent.escape id))).length ≤ Uri.maxLength) :
    AsksByRecord i kind id (i.valueQuery kind id) where
  method := rfl
  path := by
    show Resource.ofPath? "/value" = some .value
    decide +kernel
  record := by
    have hwrite : "/value".startsWith writePath = false := by decide +kernel
    have hdecode : Metric.decode (Metric.query id kind).encode = .ok (Metric.query id kind) :=
      Metric.decode_encode _ fun x hx => nomatch hx
    obtain ⟨hsealed, hgzip, hsigned⟩ := marks_valueQuery i kind id
    have hreceived := received_of_unmarked (i := i) (Bool.and_eq_false_iff.mpr (.inr hwrite))
      hsealed hgzip
    exact ⟨_, _, hreceived, ⟨length_query_le h, hsigned⟩, hdecode, rfl, rfl⟩

end Ingest

/-! ## 3. The export -/

namespace Ledger

theorem kind_of_get? {l : Ledger} {kind : Kind} {id : String} {v : Value}
    (h : l.get? kind id = some v) : v.kind = kind := by
  cases kind with
  | gauge =>
    obtain ⟨x, -, rfl⟩ := Option.map_eq_some_iff.mp h
    rfl
  | counter =>
    obtain ⟨d, -, rfl⟩ := Option.map_eq_some_iff.mp h
    rfl

theorem mem_updates {l : Ledger} {u : Update} :
    u ∈ l.updates ↔ l.get? u.value.kind u.id = some u.value := by
  obtain ⟨id, value⟩ := u
  unfold updates
  rw [List.mem_append, List.mem_map, List.mem_map]
  cases value with
  | gauge x =>
    simp [get?, Value.kind, Table.get?_eq_some_iff]
  | counter d =>
    simp [get?, Value.kind, Table.get?_eq_some_iff]

/-- The export holds a record for every value that the ledger knows, and no other record. -/
theorem mem_toRecords {l : Ledger} {m : Metric} :
    m ∈ l.toRecords ↔ ∃ v, l.get? m.kind m.id = some v ∧ m = Metric.ofUpdate ⟨m.id, v⟩ := by
  rw [toRecords_eq, List.mem_map]
  constructor
  · rintro ⟨⟨id, v⟩, hu, rfl⟩
    have hget := mem_updates.mp hu
    cases v <;> exact ⟨_, hget, rfl⟩
  · rintro ⟨v, hget, hm⟩
    refine ⟨⟨m.id, v⟩, mem_updates.mpr ?_, hm.symm⟩
    rw [kind_of_get? hget]
    exact hget

/-- Every value of a sound ledger can be sent. -/
theorem Sound.encodable_of_get? {l : Ledger} (hl : l.Sound) {kind : Kind} {id : String} {v : Value}
    (h : l.get? kind id = some v) : v.isEncodable = true := by
  cases kind with
  | gauge =>
    obtain ⟨x, hx, rfl⟩ := Option.map_eq_some_iff.mp h
    exact (hl.gauges _ ((Table.get?_eq_some_iff _).mp hx)).2
  | counter =>
    obtain ⟨d, -, rfl⟩ := Option.map_eq_some_iff.mp h
    rfl

end Ledger

/-! ## 4. Agreement -/

/-- What accepted updates say of a metric: a gauge is at its last reading, a counter is the exact
sum of its differences. -/
def Update.Tell (us : List Update) (id : String) : Value → Prop
  | .gauge x => lastReading? id us = some x
  | .counter d => Mention .counter id us ∧ d.toInt = counterSum id us

open LedgerHistoryLemmas in
theorem Ledger.tell_of_get? {l : Ledger} {us : List Update}
    (h : us.foldlM Ledger.apply .empty = .ok l) {kind : Kind} {id : String} {v : Value}
    (hget : l.get? kind id = some v) : Update.Tell us id v := by
  cases kind with
  | gauge =>
    obtain ⟨x, hx, rfl⟩ := Option.map_eq_some_iff.mp hget
    exact (gauge_eq h id).symm.trans hx
  | counter =>
    obtain ⟨d, hd, rfl⟩ := Option.map_eq_some_iff.mp hget
    exact (counter_eq_some_iff h id d.toInt).mp (by rw [hd]; rfl)

namespace Ingest

open LedgerHistoryLemmas in
/-- A server starts with an empty ledger and is sent any requests and messages, one after another;
`us` are the updates of those that were accepted. Its keys, its network, its file and its trail may
be anything. Whoever asks for a metric afterwards, by its path in any spelling and by a record in
any spelling, finds the same.

A question by path is a `GET` that the layers in front let through. A question by record is a `POST`
that they let through with a body of at most two mebibytes, which has a good signature if the server
asks for one. Anything else is refused before the ledger is looked at.

* Both questions are answered with 404, and the export has no such record, exactly if no accepted
  update names the metric.
* Otherwise the text of the first answer, the record in the second one and the record in the export
  all hold one value, bit for bit, and it is the last reading or the exact sum of the differences.
* Every metric whose path is no longer than an address can be, 65534 bytes, can be asked for in
  both ways, and the path is parsed as that address. An id that is longer than that has no path at
  all. -/
theorem read_surfaces_agree (i : Ingest) {start : ServerState Ledger}
    (hstart : start.store = .empty) (sent : List Incoming) :
    (∃ us, History i start sent us) ∧
    (∀ us, History i start sent us →
      let s := sent.foldl i.after start
      ∃ records, (StoreTask.listing.run Ledger.store s.store).1 = .ok records ∧
        ∀ kind id, id ≠ "" → ∀ get post, AsksByPath i kind id get → AsksByRecord i kind id post →
          let byPath := ((i.handle get).run Ledger.store s).1
          let byRecord := ((i.handle post).run Ledger.store s).1
          (byPath.status = 404 ↔ ¬ Mention kind id us) ∧
          (byRecord.status = 404 ↔ ¬ Mention kind id us) ∧
          ((∀ m ∈ records, ¬ (m.kind = kind ∧ m.id = id)) ↔ ¬ Mention kind id us) ∧
          (Mention kind id us → ∃ v, v.kind = kind ∧ Update.Tell us id v ∧
            byPath.status = 200 ∧
            (∃ text, byPath.body = Bytes.ofText text ∧ Value.parse kind text = .ok v) ∧
            byRecord.status = 200 ∧
            (∃ document,
              i.callerKeys.decode (byRecord.headers.payload byRecord.body) = .ok document ∧
              Metric.decode document = .ok (Metric.ofUpdate ⟨id, v⟩)) ∧
            Metric.ofUpdate ⟨id, v⟩ ∈ records ∧
            ∀ m ∈ records, m.kind = kind → m.id = id → m = Metric.ofUpdate ⟨id, v⟩)) ∧
    ∀ kind id,
      (Bytes.ofText (Resource.valuePath kind (Percent.escape id))).length ≤ Uri.maxLength →
      ∃ get post, Uri.parse (Resource.valuePath kind (Percent.escape id)) = .ok get.uri ∧
        AsksByPath i kind id get ∧ AsksByRecord i kind id post := by
  refine ⟨exists_history i start sent, fun us hus => ?_, fun kind id hlength =>
    ⟨_, _, Uri.parse_valuePath kind id hlength, asksByPath_valueRequest i kind id,
      asksByRecord_valueQuery i hlength⟩⟩
  intro s
  have hfold : us.foldlM Ledger.apply .empty = .ok s.store := by
    rw [← hstart]
    exact hus.foldlM
  have hsound : s.store.Sound := Ledger.sound_foldlM Ledger.sound_empty hus.sound hfold
  refine ⟨s.store.toRecords, rfl, fun kind id hid get post hget hpost => ?_⟩
  intro byPath byRecord
  have hknown := known_iff hfold kind id
  have hpath := hget.answer hid s
  have hrecord := hpost.answer hid s
  cases hvalue : s.store.get? kind id with
  | none =>
    rw [hvalue] at hknown hpath hrecord
    have hnot : ¬ Mention kind id us := fun h => nomatch hknown.mpr h
    have hnone : ∀ m ∈ s.store.toRecords, ¬ (m.kind = kind ∧ m.id = id) := by
      rintro m hm ⟨rfl, rfl⟩
      obtain ⟨v, hv, -⟩ := Ledger.mem_toRecords.mp hm
      rw [hvalue] at hv
      cases hv
    exact ⟨iff_of_true hpath hnot, iff_of_true hrecord hnot, iff_of_true hnone hnot,
      fun h => absurd h hnot⟩
  | some v =>
    rw [hvalue] at hknown hpath hrecord
    have hmention : Mention kind id us := hknown.mp rfl
    obtain ⟨hstatus, hbody⟩ := hpath
    obtain ⟨hstatus', hdocument⟩ := hrecord
    obtain rfl := Ledger.kind_of_get? hvalue
    have hencodable := hsound.encodable_of_get? hvalue
    have hmember : Metric.ofUpdate ⟨id, v⟩ ∈ s.store.toRecords := by
      rw [Ledger.toRecords_eq]
      exact List.mem_map_of_mem (Ledger.mem_updates.mpr hvalue)
    have honly : ∀ m ∈ s.store.toRecords, m.kind = v.kind → m.id = id →
        m = Metric.ofUpdate ⟨id, v⟩ := by
      rintro m hm hkind rfl
      obtain ⟨w, hw, heq⟩ := Ledger.mem_toRecords.mp hm
      rw [hkind, hvalue] at hw
      obtain rfl := Option.some.inj hw
      exact heq
    refine ⟨iff_of_false ?_ (not_not_intro hmention), iff_of_false ?_ (not_not_intro hmention),
      iff_of_false (fun h => h _ hmember ?_) (not_not_intro hmention), fun _ => ⟨v, rfl,
        Ledger.tell_of_get? hfold hvalue, hstatus, ⟨_, hbody, Value.parse_text hencodable⟩,
        hstatus', ⟨_, hdocument, Metric.decode_encode _ (Metric.finite_ofUpdate hencodable)⟩,
        hmember, honly⟩⟩
    · rw [hstatus]
      decide
    · rw [hstatus']
      decide
    · cases v <;> exact ⟨rfl, rfl⟩

/-- A counter with a blank in its name, written by a request and by a call. -/
theorem read_surfaces_agree_blank :
    let i : Ingest := ⟨.none, none, ⟨none, true⟩⟩
    let start : ServerState Ledger := ⟨.empty, ⟨.empty⟩, [[]], 0⟩
    let sent : List Incoming :=
      [.request ⟨"POST", ⟨none, "", "/update/counter/a%20b/5", none⟩, [], []⟩,
        .message (Bytes.ofText ("\x7b\"id\":1,\"method\":\"UpdateMetrics\",\"args\":\x7b" ++
          "\"metrics\":[\x7b\"id\":\"a b\",\"type\":\"counter\",\"delta\":2\x7d]\x7d\x7d"))]
    let s := sent.foldl i.after start
    let get := valueRequest .counter "a b"
    let post := i.valueQuery .counter "a b"
    ∃ us v, History i start sent us ∧ Update.Tell us "a b" v ∧
      (∃ text, ((i.handle get).run Ledger.store s).1.body = Bytes.ofText text ∧
        Value.parse .counter text = .ok v) ∧
      ((i.handle post).run Ledger.store s).1.status = 200 ∧
      Metric.ofUpdate ⟨"a b", v⟩ ∈ s.store.toRecords := by
  intro i start sent s get post
  have hfound : ((i.handle get).run Ledger.store s).1.status ≠ 404 := by decide +kernel
  have hget : AsksByPath i .counter "a b" get := asksByPath_valueRequest i _ _
  have hpost : AsksByRecord i .counter "a b" post :=
    asksByRecord_valueQuery i (by decide +kernel)
  have hstart : start.store = .empty := rfl
  obtain ⟨⟨us, hus⟩, hagree, -⟩ := read_surfaces_agree i hstart sent
  obtain ⟨records, hrecords, hagree⟩ := hagree us hus
  obtain ⟨hpath, -, -, hvalue⟩ := hagree .counter "a b" (by decide) get post hget hpost
  have hmention : Mention .counter "a b" us := by
    by_contra hnot
    exact hfound (hpath.mpr hnot)
  obtain ⟨v, -, htell, -, htext, hstatus, -, hrecord, -⟩ := hvalue hmention
  obtain rfl : s.store.toRecords = records := Except.ok.inj hrecords
  exact ⟨us, v, hus, htell, htext, hstatus, hrecord⟩

end Ingest
end Metering
