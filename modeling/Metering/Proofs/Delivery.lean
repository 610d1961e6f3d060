import Metering.Agent.HttpSender
import Metering.Proofs.AnswerEffect
import Metering.Proofs.MetricText
import Metering.Proofs.PayloadLayers

/-!
What an agent sends is what a server applies.

On the way from one to the other, updates become records, records a document, the document a
signed, compressed and sealed body, and the body a request with marks. The server goes the same
way back: it checks the caller, opens, inflates, verifies, reads and applies. Each step back undoes
one step forth, and what is left at the end is the list of updates that was there at the start.

`Fits` says when a sender is set up for a server: the address leads to the resource, the keys match
and the caller is in the trusted network. Results:
1. `HttpSender.post_eq`, `HttpSender.request_eq`: one request is built and carried.
2. `Ingest.received_request`: the layers of the server give back the document.
3. `requests_batch`, `requests_single`: the request asks for exactly the updates that were to be
   sent.
4. `HttpSender.updates_delivered`: the answer is a success exactly if the ledger takes all updates
   one after another, and then they are applied; otherwise nothing is.
-/
namespace Metering

/-! ## 1. Sending -/

namespace HttpSender

/-- The state and the result after a request has been carried to an answer. -/
def carried (sender : HttpSender) (path : String) (r : HttpRequest) (carrier : Carrier σ)
    (state : σ) : Except SealFault Unit × σ :=
  ((judge (sender.base ++ path) (carrier r state).1).mapError .refused, (carrier r state).2)

/-- A sender is set up for a server, as far as a resource is concerned. -/
structure Fits (sender : HttpSender) (i : Ingest) (path : String) : Prop where
  /-- Behind the address of the server, the path leads to the resource. -/
  address : ∃ u, Uri.parse (sender.base ++ path) = .ok u ∧ u.scheme ≠ none ∧ u.path = path
  /-- The server asks for no signature, or for one by the key of the sender. -/
  signing : sender.keys.SignedFor i.keys
  /-- The server can open what the sender seals, if it seals anything. -/
  sealing : sender.keys.OpenedBy i.keys
  /-- There is no trusted network, or the sender is in it. -/
  network : ∀ n, i.network = some n → ∃ a, sender.caller = some a ∧ n.contains a = true

variable {sender : HttpSender} {source : PaddingSource} {path : String} {document : Bytes}
  {r : HttpRequest}

/-- A request that can be built and has a scheme is carried, and nothing else is. -/
theorem post_eq (h : sender.request source path document = .ok r) (hscheme : r.uri.scheme ≠ none)
    (carrier : Carrier σ) (state : σ) :
    sender.post source carrier path document state = sender.carried path r carrier state := by
  unfold post carried
  rw [h]
  simp only [if_neg hscheme]

/-- The request that carries a document, with all that the server will look at. -/
theorem request_eq {i : Ingest} (h : sender.Fits i path) (source : PaddingSource)
    (document : Bytes) :
    ∃ u p, sender.request source path document =
        .ok ⟨"POST", u, Headers.describe p sender.caller, p.body⟩ ∧
      u.scheme ≠ none ∧ u.path = path ∧ p.signature = sender.keys.sign document ∧
      i.keys.openSealed p.body p.isSealed = .ok (Gzip.compress document) ∧
      i.keys.unwrap p = .ok document ∧
      p.body.length ≤
        (paddingOverhead + 1) * (Gzip.compress document).length + PrivateKey.maxSize := by
  obtain ⟨u, huri, hscheme, hpath⟩ := h.address
  obtain ⟨p, (hencode : sender.keys.encode source document = .ok p), hsignature, hopened, hunwrap,
    hlength⟩ := WireKeys.unwrap_encode h.sealing .fixed source document
  refine ⟨u, p, ?_, hscheme, hpath, hsignature, hopened, hunwrap, hlength⟩
  unfold request
  rw [hencode]
  simp only []
  rw [HttpRequest.post_eq huri fun s hs => WireKeys.visible_sign (hsignature ▸ hs)]
  rfl

end HttpSender

/-! ## 2. Receiving -/

namespace Ingest

/-- A caller in the trusted network is let through. -/
theorem checkCaller_of_contains {i : Ingest} {r : HttpRequest} {caller : Option IpAddress}
    (hsource : source r = caller.map IpAddress.text)
    (h : ∀ n, i.network = some n → ∃ a, caller = some a ∧ n.contains a = true) :
    i.checkCaller r = .ok () := by
  unfold checkCaller
  cases hn : i.network with
  | none => rfl
  | some n =>
    obtain ⟨a, rfl, ha⟩ := h n hn
    have hpass : n.check (source r) = .ok () := by
      rw [hsource]
      exact Network.check_text ha
    simp only [hpass, ite_self]

/-- A document that the server takes is short enough on every layer. -/
theorem layers_short {document body : Bytes} (hdocument : document.length ≤ maxBody)
    (hbody : body.length ≤
      (paddingOverhead + 1) * (Gzip.compress document).length + PrivateKey.maxSize) :
    body.length ≤ maxMessageSize ∧ (Gzip.compress document).length ≤ maxMessageSize := by
  have hcompress := Gzip.length_compress_le document
  have hkey : PrivateKey.maxSize = 512 := rfl
  unfold paddingOverhead at hbody
  unfold maxBody at hdocument
  unfold maxMessageSize
  omega

/-- The layers of the server give back the document, and the marks that are still needed. -/
theorem received_request {i : Ingest} {sender : HttpSender} {path : String}
    (h : sender.Fits i path) (source : PaddingSource) {document : Bytes}
    (hdocument : document.length ≤ maxBody) :
    ∃ r inner, sender.request source path document = .ok r ∧ r.uri.scheme ≠ none ∧
      i.received r = .ok inner ∧ inner.method = "POST" ∧ inner.uri.path = path ∧
      inner.body = document ∧ SoundBody i inner := by
  obtain ⟨u, p, hrequest, hscheme, hpath, hsignature, hopened, hunwrap, hlength⟩ :=
    HttpSender.request_eq h source document
  -- What the server reads off the marks is the payload that the sender made.
  have hmarks : Headers.payload (Headers.describe p sender.caller) p.body = p :=
    Headers.payload_describe fun s hs =>
      (WireKeys.visible_sign (hsignature ▸ hs)).plainText?_ofText
  have hsealed : (Headers.describe p sender.caller).isSealed = p.isSealed :=
    congrArg Payload.isSealed hmarks
  have hmark : (Headers.describe p sender.caller).text? Headers.signature = p.signature :=
    congrArg Payload.signature hmarks
  have hcaller : i.checkCaller ⟨"POST", u, Headers.describe p sender.caller, p.body⟩ = .ok () :=
    checkCaller_of_contains (Headers.text?_realIp_describe p sender.caller) h.network
  -- The layers refuse long bodies, so each of them has to see a short one.
  obtain ⟨hshort, hpacked⟩ := layers_short hdocument hlength
  have hreceived := received_unwrap i hcaller hshort fun body hbody => by
    rw [hsealed, hopened] at hbody
    exact Except.ok.inj hbody ▸ hpacked
  rw [hmarks, hunwrap] at hreceived
  obtain ⟨inner, hinner, hbody, hmethod, huri, htext, -⟩ := hreceived
  refine ⟨_, inner, hrequest, hscheme, hinner, hmethod, huri ▸ hpath, hbody, ?_, ?_⟩
  · rw [hbody]
    exact hdocument
  · rw [htext, hmark, hsignature, hbody]
    exact WireKeys.verify_sign h.signing document

/-! ## 3. What the request asks for -/

/-- A batch that is sent asks for its updates. -/
theorem requests_batch {i : Ingest} {sender : HttpSender}
    (h : sender.Fits i HttpSender.batchPath) (source : PaddingSource) {us : List Update}
    (hus : us ≠ []) (hid : ∀ u ∈ us, u.id ≠ "") (hvalue : ∀ u ∈ us, u.value.isEncodable = true)
    (hshort : (Metric.encodeList (us.map Metric.ofUpdate)).length ≤ maxBody) :
    ∃ r, sender.request source HttpSender.batchPath (Metric.encodeList (us.map Metric.ofUpdate)) =
        .ok r ∧ r.uri.scheme ≠ none ∧ Requests i r us := by
  obtain ⟨r, inner, hrequest, hscheme, hreceived, hmethod, hpath, hbody, hsound⟩ :=
    received_request h source hshort
  have hresource : Resource.ofPath? HttpSender.batchPath = some .updates := by decide +kernel
  have hdecode : Metric.decodeList inner.body = .ok (us.map Metric.ofUpdate) := by
    rw [hbody]
    refine Metric.decodeList_encodeList _ fun m hm => ?_
    obtain ⟨u, hu, rfl⟩ := List.mem_map.mp hm
    exact Metric.finite_ofUpdate (hvalue u hu)
  refine ⟨r, hrequest, hscheme, inner, .updates, hreceived, hmethod, hpath ▸ hresource, ?_⟩
  exact .list hsound hdecode (fun hnil => hus (List.map_eq_nil_iff.mp hnil))
    (Metric.mapM_toUpdate hid)

/-- A single update that is sent asks for itself. -/
theorem requests_single {i : Ingest} {sender : HttpSender}
    (h : sender.Fits i HttpSender.singlePath) (source : PaddingSource) {u : Update}
    (hid : u.id ≠ "") (hvalue : u.value.isEncodable = true)
    (hshort : (Metric.ofUpdate u).encode.length ≤ maxBody) :
    ∃ r, sender.request source HttpSender.singlePath (Metric.ofUpdate u).encode = .ok r ∧
      r.uri.scheme ≠ none ∧ Requests i r [u] := by
  obtain ⟨r, inner, hrequest, hscheme, hreceived, hmethod, hpath, hbody, hsound⟩ :=
    received_request h source hshort
  have hresource : Resource.ofPath? HttpSender.singlePath = some .update := by decide +kernel
  have hdecode : Metric.decode inner.body = .ok (Metric.ofUpdate u) := by
    rw [hbody]
    exact Metric.decode_encode _ (Metric.finite_ofUpdate hvalue)
  refine ⟨r, hrequest, hscheme, inner, .update, hreceived, hmethod, hpath ▸ hresource, ?_⟩
  exact .record hsound hdecode (Metric.toUpdate_ofUpdate hid)

/-! ## 4. Delivery -/

/-- How a request for updates ends: with a success and the ledger that they lead to, one after
another, or with a bad request and no change at all. -/
structure Delivers (i : Ingest) (s : ServerState Ledger) (us : List Update) (r : HttpRequest) :
    Prop where
  applied : ∀ l, us.foldlM Ledger.apply s.store = .ok l →
    ((i.handle r).run Ledger.store s).1.status = 200 ∧
      ((i.handle r).run Ledger.store s).2.store = l
  refused : ∀ e, us.foldlM Ledger.apply s.store = .error e →
    ((i.handle r).run Ledger.store s).1.status = 400 ∧ ((i.handle r).run Ledger.store s).2 = s

theorem delivers_of_requests {i : Ingest} {r : HttpRequest} {us : List Update}
    (h : Requests i r us) (s : ServerState Ledger) : i.Delivers s us r := by
  -- The request commits what it asks for, and it asks for one list of updates only.
  rcases run_handle_of_write i h.isWrite s with ⟨us', h', caller, hcommits⟩ | ⟨hnone, -⟩
  · obtain rfl := h.unique h'
    unfold Commits at hcommits
    constructor
    · intro l hfold
      rw [hfold] at hcommits
      exact ⟨hcommits.1, by rw [hcommits.2, Service.followed_store]⟩
    · intro e hfold
      rw [hfold] at hcommits
      have hstatus : (Refusal.fault e).status = 400 := if_pos (Ledger.kind_of_foldlM_error hfold)
      exact ⟨hcommits.1.trans hstatus, hcommits.2⟩
  · exact absurd h (hnone us)

end Ingest

/-- What an agent sends arrives as it was meant, whatever the keys, the padding, the caller, the
ledger and the settings of the server are, as long as the two fit each other.

* A batch of updates becomes one request, which is all that is carried. It is answered with 200
  exactly if the ledger takes the updates one after another, and then the ledger is what they lead
  to; otherwise it is answered with 400 and nothing has changed.
* The same holds for a single update, which goes to a resource of its own. -/
theorem HttpSender.updates_delivered (sender : HttpSender) (source : PaddingSource) (i : Ingest)
    (s : ServerState Ledger) :
    (sender.Fits i batchPath → ∀ us : List Update, us ≠ [] →
      (∀ u ∈ us, u.id ≠ "" ∧ u.value.isEncodable = true) →
      (Metric.encodeList (us.map Metric.ofUpdate)).length ≤ Ingest.maxBody →
      ∃ r, (∀ (σ : Type) (carrier : Carrier σ) (state : σ),
          sender.sendBatch source carrier us state = sender.carried batchPath r carrier state) ∧
        i.Delivers s us r) ∧
    (sender.Fits i singlePath → ∀ u : Update, u.id ≠ "" → u.value.isEncodable = true →
      (Metric.ofUpdate u).encode.length ≤ Ingest.maxBody →
      ∃ r, (∀ (σ : Type) (carrier : Carrier σ) (state : σ),
          sender.sendOne source carrier u state = sender.carried singlePath r carrier state) ∧
        i.Delivers s [u] r) := by
  constructor
  · intro hfits us hus hall hshort
    obtain ⟨r, hrequest, hscheme, hrequests⟩ := Ingest.requests_batch hfits source hus
      (fun u hu => (hall u hu).1) (fun u hu => (hall u hu).2) hshort
    exact ⟨r, fun _ carrier state => post_eq hrequest hscheme carrier state,
      Ingest.delivers_of_requests hrequests s⟩
  · intro hfits u hid hvalue hshort
    obtain ⟨r, hrequest, hscheme, hrequests⟩ :=
      Ingest.requests_single hfits source hid hvalue hshort
    exact ⟨r, fun _ carrier state => post_eq hrequest hscheme carrier state,
      Ingest.delivers_of_requests hrequests s⟩

/-- A gauge and a counter, signed, compressed and sealed with a small key, by a caller in the
trusted network. -/
theorem HttpSender.updates_delivered_sealed :
    let key : SigningKey := ⟨[1, 2, 3]⟩
    let sender : HttpSender := ⟨"http://localhost:8080",
      ⟨some key, some PrivateKey.small.publicKey, none⟩, some (.v4 0x7f000001)⟩
    let i : Ingest := ⟨⟨some key, none, some .small⟩, some (.v4 0x7f000000 8), ⟨none, true⟩⟩
    let carrier : Carrier (ServerState Ledger) := fun r s =>
      (.ok ((i.handle r).run Ledger.store s).1, ((i.handle r).run Ledger.store s).2)
    let us : List Update := [⟨"g", .gauge (.ofRank true 1)⟩, ⟨"c", .counter 5⟩]
    let s : ServerState Ledger := ⟨.empty, ⟨.empty⟩, [[]], 0⟩
    let out := sender.sendBatch (fun _ _ => 0) carrier us s
    out.1 = .ok () ∧ out.2.store.get? .gauge "g" = some (.gauge (.ofRank true 1)) ∧
      out.2.store.get? .counter "c" = some (.counter 5) := by
  intro key sender i carrier us s out
  have hfits : sender.Fits i batchPath := by
    refine ⟨?_, fun _ h => h, ?_, ?_⟩
    · refine ⟨⟨some "http", "localhost:8080", "/updates/", none⟩, ?_, by decide, rfl⟩
      decide +kernel
    · intro pub hpub
      exact ⟨.small, rfl, Option.some.inj hpub, PrivateKey.usable_small⟩
    · intro n hn
      obtain rfl := Option.some.inj hn
      exact ⟨_, rfl, by decide⟩
  have hfold : us.foldlM Ledger.apply s.store = .ok (Ledger.empty.applyAll us).toOption.get! := by
    decide +kernel
  have hall : ∀ u ∈ us, u.id ≠ "" ∧ u.value.isEncodable = true := by decide +kernel
  have hshort : (Metric.encodeList (us.map Metric.ofUpdate)).length ≤ Ingest.maxBody := by
    decide +kernel
  obtain ⟨r, hsend, hdelivers⟩ := (updates_delivered sender (fun _ _ => 0) i s).1 hfits us
    (List.cons_ne_nil _ _) hall hshort
  obtain ⟨hstatus, hstore⟩ := hdelivers.applied _ hfold
  have hout : out = sender.carried batchPath r carrier s := hsend _ carrier s
  have hsuccess := Ingest.isSuccess_of_status hstatus
  have hfinal : out.2.store = (Ledger.empty.applyAll us).toOption.get! := by
    rw [hout]
    exact hstore
  refine ⟨?_, ?_, ?_⟩
  · rw [hout]
    unfold carried judge
    simp only [carrier, hsuccess, if_true]
    rfl
  · rw [hfinal]
    decide +kernel
  · rw [hfinal]
    decide +kernel

end Metering
