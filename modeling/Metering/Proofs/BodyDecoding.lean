import Metering.Proofs.CallerCheck
import Metering.Proofs.RequestMarks
import Metering.Proofs.SealedBlocks

/-!
Two ways to the plain body of a request.

A payload can be decoded as a whole: it is opened, inflated and checked against its signature. A
server takes a request apart in stages instead. Each layer reads the fields anew, keeps what it
works on within a limit of its own and takes its mark off; the signature is looked at in the end,
by the endpoint. The two ways come to the same bytes and to the same faults, whatever fields the
request has and whatever keys the server has.

They part where the endpoint comes in: it keeps no plain body of more than two megabytes, and the
layers let such bodies pass. `long_body_not_read` is one of them.

Results:
1. `withBody_of_short`: what an endpoint does with a body is to parse it, or to refuse it.
2. `HandsOver.unique`: an endpoint has one string of bytes for its parser.
3. `received_payload`: the layers do what unwrapping the payload does.
4. `body_decoded`: the parser gets what decoding the payload gives, and the fault of decoding is
   the answer.
-/
namespace Metering

/-- Whether the endpoint of a resource reads a body. -/
def Resource.readsBody : Resource → Bool
  | .update | .updates | .value => true
  | _ => false

theorem Resource.isRead_of_readsBody {resource : Resource} (h : resource.readsBody = true) :
    resource.isRead = false := by
  cases resource <;> first | rfl | cases h

namespace Ingest

/-- What is done with a body: it is parsed, and a fault of the parser is answered. -/
def parsed (parse : Bytes → Except JsonFault α) (next : α → ServerTask HttpResponse) (b : Bytes) :
    ServerTask HttpResponse :=
  match parse b with
  | .ok a => next a
  | .error e => refuse (.invalid (.body e))

/-- The layers let a request through to the endpoint of a resource, and what an endpoint makes of
it is to parse `b` and go on, whichever parser it has. -/
def HandsOver (i : Ingest) (r : HttpRequest) (resource : Resource) (b : Bytes) : Prop :=
  ∃ inner, i.received r = .ok inner ∧
    i.handle r =
      ((i.endpoint inner resource).map (i.finish inner.headers.acceptsGzip)).map (present r) ∧
    ∀ {α : Type} (parse : Bytes → Except JsonFault α) (next : α → ServerTask HttpResponse),
      i.withBody inner parse next = parsed parse next b

/-- A request is answered with a status and a text, and no step is taken. -/
def AnsweredBy (i : Ingest) (r : HttpRequest) (status : Nat) (text : String) : Prop :=
  ∃ a, i.handle r = .done a ∧ a.status = status ∧ a.body = Bytes.ofText text

variable {i : Ingest} {r inner : HttpRequest} {resource : Resource}

/-! ## 1. Endpoints that read a body -/

/-- The endpoints differ in their parsers and in what they do next, and in nothing before that. -/
theorem endpoint_readsBody (i : Ingest) (r : HttpRequest) (h : resource.readsBody = true) :
    ∃ (α : Type) (parse : Bytes → Except JsonFault α) (next : α → ServerTask HttpResponse),
      i.endpoint r resource = i.withBody r parse next := by
  cases resource with
  | update => exact ⟨_, _, _, rfl⟩
  | updates => exact ⟨_, _, _, rfl⟩
  | value => exact ⟨_, _, _, rfl⟩
  | updateAt kind id value => cases h
  | valueAt kind id => cases h
  | ping => cases h

theorem withBody_of_short (hshort : r.body.length ≤ maxBody)
    (parse : Bytes → Except JsonFault α) (next : α → ServerTask HttpResponse) :
    i.withBody r parse next =
      match i.keys.verify r.body (r.headers.text? Headers.signature) with
      | .ok () => parsed parse next r.body
      | .error f => refuse f := by
  unfold withBody readBody parsed
  rw [if_neg (Nat.not_lt.mpr hshort)]
  cases i.keys.verify r.body (r.headers.text? Headers.signature) with
  | error f => rfl
  | ok =>
    cases parse r.body with
    | error e => rfl
    | ok a => rfl

/-- An answer to what is sent there leaves as it is, since `HEAD` does not ask for it. -/
theorem present_of_not_read (hpath : Resource.ofPath? r.uri.path = some resource)
    (hmethod : r.method = "POST") (hread : resource.isRead = false) (a : HttpResponse) :
    present r a = a := by
  unfold present
  rw [hpath, hmethod]
  simp [Resource.takes, hread]

/-! ## 2. What the parser gets -/

/-- Two strings of bytes that no parser tells apart are the same. -/
theorem parsed_injective {b c : Bytes}
    (h : ∀ (parse : Bytes → Except JsonFault Bool) (next : Bool → ServerTask HttpResponse),
      parsed parse next b = parsed parse next c) : b = c := by
  have hask := h (fun x => .ok (decide (x = b))) fun same =>
    .done (.empty (if same then 200 else 0))
  by_contra hne
  unfold parsed at hask
  simp [HttpResponse.empty, Ne.symm hne] at hask

/-- A parser that is content with anything is not content with a refusal. -/
theorem refuse_ne_parsed (f : Failure) (b : Bytes) :
    refuse f ≠ parsed (fun _ => .ok ()) (fun _ => .done (.empty 0)) b := by
  intro h
  have hstatus := congrArg (fun t : ServerTask HttpResponse => match t with
    | .done a => a.status
    | .step _ _ => 0) h
  have hge := Refusal.status_ge (.failure f)
  have hzero : (Refusal.failure f).status = 0 := hstatus
  omega

theorem HandsOver.unique {b c : Bytes} (h : HandsOver i r resource b)
    (k : HandsOver i r resource c) : b = c := by
  obtain ⟨inner, hr, -, hb⟩ := h
  obtain ⟨inner', hr', -, hc⟩ := k
  obtain rfl := Except.ok.inj (hr.symm.trans hr')
  exact parsed_injective fun parse next => (hb parse next).symm.trans (hc parse next)

/-! ## 3. Layers and the payload -/

/-- Opening makes no body longer, so the limits of the layers hold from the outermost on. -/
theorem openSealed_short (hshort : r.body.length ≤ maxMessageSize) (body : Bytes)
    (h : i.keys.openSealed r.body r.headers.isSealed = .ok body) :
    body.length ≤ maxMessageSize := by
  unfold WireKeys.openSealed at h
  split at h
  next => exact (PrivateKey.length_openBody_le h).trans hshort
  next =>
    obtain rfl := Except.ok.inj h
    exact hshort

theorem received_payload (hcaller : i.checkCaller r = .ok ())
    (hshort : r.body.length ≤ maxMessageSize) :
    match i.keys.unwrap (r.headers.payload r.body) with
    | .error f => i.received r = .error f
    | .ok plain => ∃ inner, i.received r = .ok inner ∧ inner.body = plain ∧
        inner.method = r.method ∧ inner.uri = r.uri ∧
        inner.headers.text? Headers.signature = r.headers.text? Headers.signature ∧
        source inner = source r :=
  received_unwrap i hcaller hshort (openSealed_short hshort)

/-! ## 4. Answers -/

theorem finish_plain (acceptsGzip : Bool) (status : Nat) (text : String) :
    (i.finish acceptsGzip (.plain status text)).body = Bytes.ofText text := by
  have htype : Headers.isCompressible (Headers.text?
      [(Headers.contentType, Bytes.ofText Headers.plain)] Headers.contentType) = false := by
    decide +kernel
  unfold finish HttpResponse.plain
  dsimp only
  rw [htype, Bool.and_false, if_neg Bool.false_ne_true]

/-- A plain answer of the endpoint keeps its status and its text. -/
theorem answeredBy_of_dispatch {status : Nat} {text : String}
    (hr : i.received r = .ok inner) (hpresent : ∀ a, present r a = a)
    (h : i.dispatch inner = .done (.plain status text)) : AnsweredBy i r status text := by
  refine ⟨i.finish inner.headers.acceptsGzip (.plain status text), ?_, ?_, finish_plain _ _ _⟩
  · rw [handle_of_received hr, h]
    exact congrArg ServerTask.done (hpresent _)
  · rw [finish_status]
    rfl

/-- What becomes of a request is what becomes of a payload that is decoded. -/
def EndsAs (i : Ingest) (r : HttpRequest) (resource : Resource) : Except Failure Bytes → Prop
  | .ok b => HandsOver i r resource b
  | .error f => (∀ b, ¬ HandsOver i r resource b) ∧
      AnsweredBy i r (Refusal.failure f).status (Refusal.failure f).message

theorem EndsAs.handsOver_iff {d : Except Failure Bytes} (h : EndsAs i r resource d) (b : Bytes) :
    HandsOver i r resource b ↔ d = .ok b := by
  cases d with
  | error f => exact ⟨fun hb => absurd hb (h.1 b), fun hd => by cases hd⟩
  | ok c =>
    refine ⟨fun hb => congrArg Except.ok (HandsOver.unique h hb), fun hd => ?_⟩
    obtain rfl := Except.ok.inj hd
    exact h

theorem EndsAs.answeredBy {d : Except Failure Bytes} (h : EndsAs i r resource d) {f : Failure}
    (hd : d = .error f) : AnsweredBy i r (Refusal.failure f).status (Refusal.failure f).message := by
  subst hd
  exact h.2

/-- The fault of a layer is the answer, and no endpoint sees the request. -/
theorem endsAs_of_refused {f : Failure} (hr : i.received r = .error f)
    (hpresent : ∀ a, present r a = a) : EndsAs i r resource (.error f) := by
  refine ⟨?_, (Refusal.failure f).response, ?_, rfl, rfl⟩
  · rintro b ⟨inner, hinner, -⟩
    cases hr.symm.trans hinner
  · rw [handle_of_refused hr]
    exact congrArg ServerTask.done (hpresent _)

/-- Behind the layers, a body within the limit of the endpoint is a matter of its signature. -/
theorem endsAs_of_received (hr : i.received r = .ok inner)
    (hdispatch : i.dispatch inner = i.endpoint inner resource) (hbody : resource.readsBody = true)
    (hpresent : ∀ a, present r a = a) (hshort : inner.body.length ≤ maxBody) :
    EndsAs i r resource ((i.keys.verify inner.body
      (inner.headers.text? Headers.signature)).map fun _ => inner.body) := by
  cases hverify : i.keys.verify inner.body (inner.headers.text? Headers.signature) with
  | ok =>
    refine ⟨inner, hr, ?_, fun parse next => ?_⟩
    · rw [handle_of_received hr, hdispatch]
    · rw [withBody_of_short hshort, hverify]
  | error f =>
    refine ⟨?_, ?_⟩
    · rintro b ⟨inner', hr', -, hb⟩
      obtain rfl := Except.ok.inj (hr.symm.trans hr')
      have h := hb (fun _ => .ok ()) fun _ => .done (.empty 0)
      rw [withBody_of_short hshort, hverify] at h
      exact refuse_ne_parsed f b h
    · obtain ⟨α, parse, next, hendpoint⟩ := endpoint_readsBody i inner hbody
      refine answeredBy_of_dispatch hr hpresent ?_
      rw [hdispatch, hendpoint, withBody_of_short hshort, hverify]
      rfl

/-- Behind the layers, a body beyond the limit of the endpoint is not read. -/
theorem not_handsOver_of_long (hr : i.received r = .ok inner)
    (hdispatch : i.dispatch inner = i.endpoint inner resource) (hbody : resource.readsBody = true)
    (hpresent : ∀ a, present r a = a) (hlong : maxBody < inner.body.length) :
    (∀ b, ¬ HandsOver i r resource b) ∧ AnsweredBy i r 413 longBodyReason := by
  refine ⟨?_, ?_⟩
  · rintro b ⟨inner', hr', -, hb⟩
    obtain rfl := Except.ok.inj (hr.symm.trans hr')
    have hread : i.withBody inner (fun _ => .ok ()) (fun _ => .done (.empty 0)) =
        .done (.plain 413 longBodyReason) := if_pos hlong
    cases hread.symm.trans (hb _ _)
  · obtain ⟨α, parse, next, hendpoint⟩ := endpoint_readsBody i inner hbody
    refine answeredBy_of_dispatch hr hpresent ?_
    rw [hdispatch, hendpoint]
    exact if_pos hlong

/-- How a server without a trusted network, or one that trusts the caller, reads the body of a
request to an endpoint that reads one. The body may have any length that the layers work on; the
keys of the server and the fields of the request may be anything.

* If the plain body is within the limit of the endpoint, or there is none, then the bytes that the
  parser gets are those that decoding the payload gives: there are some exactly if decoding
  succeeds, and they are the same.
* If decoding fails, the answer has the status and the text of its fault, and no step is taken.
* If the plain body is longer, no parser gets anything, the answer says so, and no step is taken. -/
theorem body_decoded (i : Ingest) (r : HttpRequest) {resource : Resource}
    (hmethod : r.method = "POST") (hpath : Resource.ofPath? r.uri.path = some resource)
    (hbody : resource.readsBody = true) (hcaller : i.checkCaller r = .ok ())
    (hshort : r.body.length ≤ maxMessageSize) :
    ((∀ plain, i.keys.unwrap (r.headers.payload r.body) = .ok plain → plain.length ≤ maxBody) →
      (∀ b, HandsOver i r resource b ↔ i.keys.decode (r.headers.payload r.body) = .ok b) ∧
      (∀ f, i.keys.decode (r.headers.payload r.body) = .error f →
        AnsweredBy i r (Refusal.failure f).status (Refusal.failure f).message)) ∧
    (∀ plain, i.keys.unwrap (r.headers.payload r.body) = .ok plain → maxBody < plain.length →
      (∀ b, ¬ HandsOver i r resource b) ∧ AnsweredBy i r 413 longBodyReason) := by
  have hlayers := received_payload hcaller hshort
  have hread := Resource.isRead_of_readsBody hbody
  have hpresent := present_of_not_read hpath hmethod hread
  cases hunwrap : i.keys.unwrap (r.headers.payload r.body) with
  | error f =>
    rw [hunwrap] at hlayers
    have hends : EndsAs i r resource (i.keys.decode (r.headers.payload r.body)) := by
      rw [WireKeys.decode, Chaining.bind_of_error hunwrap]
      exact endsAs_of_refused hlayers hpresent
    exact ⟨fun _ => ⟨hends.handsOver_iff, fun f => hends.answeredBy⟩, fun plain h => by cases h⟩
  | ok plain =>
    rw [hunwrap] at hlayers
    obtain ⟨inner, hr, rfl, hm, hu, hsignature, -⟩ := hlayers
    have hdispatch : i.dispatch inner = i.endpoint inner resource :=
      dispatch_of_not_read (hu ▸ hpath) (hm.trans hmethod) hread
    refine ⟨fun hplain => ?_, fun plain h hlong => ?_⟩
    · have hends := endsAs_of_received hr hdispatch hbody hpresent (hplain _ rfl)
      rw [hsignature] at hends
      rw [WireKeys.decode_of_unwrap hunwrap]
      exact ⟨hends.handsOver_iff, fun f => hends.answeredBy⟩
    · obtain rfl := Except.ok.inj h
      exact not_handsOver_of_long hr hdispatch hbody hpresent hlong

/-- A server with a key gets a record without a tag. -/
theorem body_decoded_untagged :
    let i : Ingest := ⟨⟨some ⟨Bytes.ofText "secret"⟩, none, none⟩, none, ⟨none, true⟩⟩
    let r : HttpRequest := ⟨"POST", ⟨none, "", "/value/", none⟩, [], Bytes.ofText "\x7b\x7d"⟩
    AnsweredBy i r 400 "Integrity check failed: missing HashSHA256 header" ∧
      ∀ b, ¬ HandsOver i r .value b := by
  intro i r
  have hlength : r.body.length = 2 := by decide +kernel
  have hpath : Resource.ofPath? r.uri.path = some .value := by decide +kernel
  have hdecode : i.keys.decode (r.headers.payload r.body) = .error ⟨.integrity, .missingTag⟩ := rfl
  have hshort : r.body.length ≤ maxMessageSize := by rw [hlength]; decide
  have hplain : ∀ plain, i.keys.unwrap (r.headers.payload r.body) = .ok plain →
      plain.length ≤ maxBody := by
    intro plain h
    obtain rfl : r.body = plain := Except.ok.inj h
    rw [hlength]
    decide
  obtain ⟨hands, hanswer⟩ := (body_decoded i r rfl hpath rfl rfl hshort).1 hplain
  refine ⟨hanswer _ hdecode, fun b hb => ?_⟩
  cases hdecode.symm.trans ((hands b).mp hb)

/-- Decoding has no limit of two megabytes: a longer record without any marks decodes to itself,
and no endpoint reads it. -/
theorem long_body_not_read :
    let i : Ingest := ⟨.none, none, ⟨none, true⟩⟩
    let b : Bytes := List.replicate (maxBody + 1) 0x20
    let r : HttpRequest := ⟨"POST", ⟨none, "", "/update", none⟩, [], b⟩
    r.body.length ≤ maxMessageSize ∧ i.keys.decode (r.headers.payload r.body) = .ok b ∧
      (∀ c, ¬ HandsOver i r .update c) ∧ AnsweredBy i r 413 longBodyReason := by
  intro i b r
  have hlong : maxBody < b.length := by
    rw [List.length_replicate]
    exact Nat.lt_succ_self _
  have hpath : Resource.ofPath? r.uri.path = some .update := by decide +kernel
  have hmax : r.body.length ≤ maxMessageSize := by
    rw [List.length_replicate]
    decide
  exact ⟨hmax, rfl, not_handsOver_of_long rfl (dispatch_of_not_read hpath rfl rfl) rfl
    (present_of_not_read hpath rfl rfl) hlong⟩

end Ingest
end Metering
