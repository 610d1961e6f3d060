import Metering.Proofs.CallerCheck
import Metering.Proofs.Inflation
import Metering.Proofs.RequestMarks

/-!
Which answers are signed, and what is signed.

An answer comes from an endpoint, from the check of its body, or from a path or a method that leads
nowhere. All of these pass one layer, which signs the plain body and compresses it afterwards, so
whoever has the key can check the answer. Two things lie outside of that layer. What the layers in
front of it refuse is not signed, and `HEAD` takes the body away behind it, so that the tag is the
one of the body that is not sent. `answers_not_signed` has one answer of each sort.

Results:
1. `ServerTask.EndsIn`: what all answers of a dialogue have in common.
2. `bare_dispatch`: endpoints leave the marks of an answer to the layers.
3. `signedAnswer_finish`: the layer signs the plain body, in either form.
4. `SignedAnswer.decode`: a signed answer is verified and read back with the key.
5. `handle_head`: `HEAD` is answered as `GET`, without the body.
6. `answers_signed`: which answers carry the tag of their plain body.
-/
namespace Metering

/-! ## 1. Answers of dialogues -/

namespace ServerTask

variable {P Q : α → Prop}

/-- Every answer that the task can end with has the property, whatever its steps are answered. -/
def EndsIn (P : α → Prop) : ServerTask α → Prop
  | .done a => P a
  | .step _ next => ∀ r, EndsIn P (next r)

theorem EndsIn.mono {t : ServerTask α} (ht : t.EndsIn P) (h : ∀ a, P a → Q a) : t.EndsIn Q := by
  induction t with
  | done a => exact h a ht
  | step s next ih => exact fun r => ih r (ht r)

theorem endsIn_of_forall (h : ∀ a, P a) (t : ServerTask α) : t.EndsIn P := by
  induction t with
  | done a => exact h a
  | step s next ih => exact fun r => ih r

theorem endsIn_map {t : ServerTask α} {f : α → β} {P : β → Prop}
    (h : t.EndsIn fun a => P (f a)) : (t.map f).EndsIn P := by
  induction t with
  | done a => exact h
  | step s next ih => exact fun r => ih r (h r)

/-- Two ways to go on are the same if they agree on the answers that there can be. -/
theorem EndsIn.map_congr {t : ServerTask α} (ht : t.EndsIn P) {f g : α → β}
    (h : ∀ a, P a → f a = g a) : t.map f = t.map g := by
  induction t with
  | done a => exact congrArg ServerTask.done (h a ht)
  | step s next ih => exact congrArg (ServerTask.step s) (funext fun r => ih r (ht r))

/-- In particular, the answer of a run has the property, over any store. -/
theorem EndsIn.run {t : ServerTask α} (h : t.EndsIn P) (store : Store σ) (s : ServerState σ) :
    P (t.run store s).1 := by
  induction t generalizing s with
  | done a => exact h
  | step st next ih => exact ih _ (h _) _

end ServerTask

namespace Ingest

open ServerTask

/-! ## 2. Answers of endpoints -/

/-- An answer that says nothing but the type of its body. -/
def Bare (a : HttpResponse) : Prop := ∀ e ∈ a.headers, e.1 = Headers.contentType

theorem bare_plain (status : Nat) (text : String) : Bare (.plain status text) := by
  intro e he
  rw [List.mem_singleton.mp he]

theorem bare_json (document : Bytes) : Bare (.json document) := by
  intro e he
  rw [List.mem_singleton.mp he]

theorem bare_empty (status : Nat) : Bare (.empty status) := by
  intro e he
  cases he

theorem Bare.values {a : HttpResponse} (h : Bare a) {name : String}
    (hname : name ≠ Headers.contentType) : a.headers.values name = [] := by
  refine List.filterMap_eq_nil_iff.mpr fun e he => ?_
  rw [h e he, if_neg hname.symm]

theorem bare_answering {f : α → HttpResponse} (h : ∀ a, Bare (f a))
    (t : ServerTask (Except Refusal α)) : (answering t f).EndsIn Bare := by
  refine endsIn_map (endsIn_of_forall (fun result => ?_) t)
  cases result with
  | error e => exact bare_plain _ _
  | ok a => exact h a

theorem bare_withBody {i : Ingest} {r : HttpRequest} {decode : Bytes → Except JsonFault α}
    {next : α → ServerTask HttpResponse} (h : ∀ a, (next a).EndsIn Bare) :
    (i.withBody r decode next).EndsIn Bare := by
  unfold withBody
  split
  next => exact bare_plain _ _
  next =>
    split
    next a _ => exact h a
    next => exact bare_plain _ _

theorem bare_endpoint (i : Ingest) (r : HttpRequest) (resource : Resource) :
    (i.endpoint r resource).EndsIn Bare := by
  cases resource with
  | updateAt kind id value =>
    simp only [endpoint, updateAt]
    split
    next => exact bare_plain _ _
    next =>
      split
      next => exact bare_plain _ _
      next => exact bare_answering (fun _ => bare_plain _ _) _
  | update =>
    refine bare_withBody fun m => ?_
    split
    next => exact bare_plain _ _
    next => exact bare_answering (fun _ => bare_json _) _
  | updates =>
    refine bare_withBody fun ms => ?_
    split
    next => exact bare_plain _ _
    next =>
      split
      next => exact bare_plain _ _
      next => exact bare_answering (fun _ => bare_json _) _
  | valueAt kind id =>
    simp only [endpoint, valueAt]
    split
    next => exact bare_plain _ _
    next =>
      split
      next => exact bare_plain _ _
      next => exact bare_answering (fun _ => bare_plain _ _) _
  | value =>
    refine bare_withBody fun m => ?_
    split
    next => exact bare_plain _ _
    next => exact bare_answering (fun _ => bare_json _) _
  | ping => exact bare_answering (fun _ => bare_plain _ _) _

theorem bare_dispatch (i : Ingest) (r : HttpRequest) : (i.dispatch r).EndsIn Bare := by
  unfold dispatch
  split
  next => exact bare_empty 404
  next resource _ =>
    split
    next => exact bare_endpoint i r resource
    next => exact bare_empty 405

/-! ## 3. The layer that signs -/

/-- The answer has a plain body: compressed, if it is marked so, and as it is, if not. -/
def Carries (plain : Bytes) (a : HttpResponse) : Prop :=
  a.headers.values Headers.contentEncoding = [Bytes.ofText Headers.gzip] ∧
      a.body = Gzip.compress plain ∨
    a.headers.values Headers.contentEncoding = [] ∧ a.body = plain

/-- The answer carries the tag of a plain body, once, and beside it that body. -/
structure SignedAnswer (key : SigningKey) (plain : Bytes) (a : HttpResponse) : Prop where
  tag : a.headers.values Headers.signature = [Bytes.ofText (key.sign plain)]
  body : Carries plain a

/-- The layer leaves the body of an answer in one of the two forms, whether there is a key or
not. -/
theorem carries_finish (i : Ingest) (acceptsGzip : Bool) {a : HttpResponse} (h : Bare a) :
    Carries a.body (i.finish acceptsGzip a) := by
  have hcoding : a.headers.values Headers.contentEncoding = [] := h.values (by decide)
  -- With the tag or without, nothing is marked as compressed yet.
  obtain ⟨signed, hsigned, hfinish⟩ : ∃ signed : Headers,
      signed.values Headers.contentEncoding = [] ∧ i.finish acceptsGzip a =
        if acceptsGzip && Headers.isCompressible (a.headers.text? Headers.contentType) then
          { a with
            headers := (signed.add Headers.contentEncoding Headers.gzip).add Headers.vary
              Headers.acceptEncoding
            body := Gzip.compress a.body }
        else { a with headers := signed } := by
    unfold finish
    cases i.keys.sign a.body with
    | none => exact ⟨a.headers, hcoding, rfl⟩
    | some s =>
      refine ⟨a.headers.add Headers.signature s, ?_, rfl⟩
      rw [Headers.values_add, hcoding]
      rfl
  rw [hfinish]
  split
  next =>
    refine .inl ⟨?_, rfl⟩
    rw [Headers.values_add, Headers.values_add, hsigned]
    rfl
  next => exact .inr ⟨hsigned, rfl⟩

theorem signedAnswer_finish {i : Ingest} {key : SigningKey} (hkey : i.keys.signing = some key)
    (acceptsGzip : Bool) {a : HttpResponse} (h : Bare a) :
    SignedAnswer key a.body (i.finish acceptsGzip a) := by
  refine ⟨?_, carries_finish i acceptsGzip h⟩
  have hsign : i.keys.sign a.body = some (key.sign a.body) := by
    unfold WireKeys.sign
    rw [hkey]
    rfl
  have htag : a.headers.values Headers.signature = [] := h.values (by decide)
  unfold finish
  rw [hsign]
  dsimp only
  split
  next =>
    simp only [Headers.values_add, htag]
    rfl
  next =>
    rw [Headers.values_add, htag]
    rfl

/-- To list the methods takes nothing away from an answer. -/
theorem SignedAnswer.present {key : SigningKey} {plain : Bytes} {a : HttpResponse}
    (h : SignedAnswer key plain a) {r : HttpRequest} (hmethod : r.method ≠ "HEAD") :
    SignedAnswer key plain (present r a) := by
  unfold Ingest.present
  split
  next => exact h
  next resource _ =>
    split
    next => exact h
    next =>
      have hvalues (name : String) (hname : name ≠ Headers.allow) :
          (a.headers.add Headers.allow resource.allowed).values name = a.headers.values name := by
        rw [Headers.values_add, if_neg hname.symm, List.append_nil]
      refine ⟨?_, ?_⟩
      · rw [hvalues _ (by decide)]
        exact h.tag
      · unfold Carries
        rw [hvalues _ (by decide)]
        exact h.body

/-! ## 4. The caller's end -/

/-- The plain body is what is left when the mark is undone, with a key for signing or without. -/
theorem Carries.unwrap {plain : Bytes} {a : HttpResponse} (h : Carries plain a)
    (signing : Option SigningKey) :
    (WireKeys.mk signing .none .none).unwrap (a.headers.payload a.body) = .ok plain := by
  have hlayers : (WireKeys.mk signing .none .none).unwrap (a.headers.payload a.body) =
      if a.headers.isGzip then WireKeys.inflate a.body else .ok a.body := rfl
  rw [hlayers]
  rcases h with ⟨hcoding, hbody⟩ | ⟨hcoding, hbody⟩
  · have hgzip : a.headers.isGzip = true := by
      unfold Headers.isGzip
      rw [Headers.text?_of_values hcoding (by decide +kernel)]
      decide +kernel
    unfold WireKeys.inflate
    rw [if_pos hgzip, hbody, Gzip.decompress_compress]
  · have hgzip : ¬ a.headers.isGzip = true := by
      unfold Headers.isGzip Headers.text? Headers.get?
      rw [hcoding]
      exact Bool.false_ne_true
    rw [if_neg hgzip, hbody]

/-- Whoever has the key and undoes what an answer is marked with gets the plain body. -/
theorem SignedAnswer.decode {key : SigningKey} {plain : Bytes} {a : HttpResponse}
    (h : SignedAnswer key plain a) :
    (WireKeys.mk (some key) .none .none).decode (a.headers.payload a.body) = .ok plain := by
  have hsignature : (a.headers.payload a.body).signature = some (key.sign plain) :=
    Headers.text?_of_values h.tag (key.visible_sign plain).plainText?_ofText
  rw [WireKeys.decode_of_unwrap (h.body.unwrap _), hsignature]
  unfold WireKeys.verify
  dsimp only
  rw [key.verify_sign]
  rfl

/-! ## 5. `HEAD` -/

/-- A request by another method. -/
def withMethod (r : HttpRequest) (method : String) : HttpRequest := { r with method := method }

/-- An answer whose body is kept back. -/
def bodiless (a : HttpResponse) : HttpResponse := { a with body := [] }

/-- A layer that works on the body does not look at the method. -/
theorem layer_withMethod (r : HttpRequest) (method mark : String) (due : Bool)
    (f : Bytes → Except Failure Bytes) :
    (if due then (do return without (withMethod r method) mark (← f (← buffered r.body)))
      else .ok (withMethod r method)) =
    (if due then (do return without r mark (← f (← buffered r.body))) else .ok r).map
      (withMethod · method) := by
  cases due with
  | false => rfl
  | true =>
    cases buffered r.body with
    | error e => rfl
    | ok body =>
      rw [if_pos rfl, if_pos rfl, Chaining.bind_of_ok rfl, Chaining.bind_of_ok rfl]
      cases f body <;> rfl

theorem opened_withMethod (i : Ingest) (r : HttpRequest) (method : String) :
    i.opened (withMethod r method) = (i.opened r).map (withMethod · method) :=
  layer_withMethod r method Headers.sealed (i.keys.opening.isSome && r.headers.isSealed)
    (i.keys.openSealed · true)

theorem inflated_withMethod (r : HttpRequest) (method : String) :
    inflated (withMethod r method) = (inflated r).map (withMethod · method) :=
  layer_withMethod r method Headers.contentEncoding r.headers.isGzip WireKeys.inflate

/-- The layers let a request through by any method that does not write, if they do by one. -/
theorem received_withMethod {i : Ingest} {r inner : HttpRequest} (hr : i.received r = .ok inner)
    {method : String} (hmethod : method ≠ "POST") :
    i.received (withMethod r method) = .ok (withMethod inner method) := by
  obtain ⟨-, -, h⟩ := Chaining.ok_of_bind hr
  obtain ⟨mid, hmid, hinner⟩ := Chaining.ok_of_bind h
  have hcaller : i.checkCaller (withMethod r method) = .ok () := by
    refine checkCaller_of_not_mayWrite ?_
    unfold mayWrite withMethod
    rw [beq_eq_false_iff_ne.mpr hmethod, Bool.false_and]
  have hopened : i.opened (withMethod r method) = .ok (withMethod mid method) := by
    rw [opened_withMethod, hmid]
    rfl
  have hinflated : inflated (withMethod mid method) = .ok (withMethod inner method) := by
    rw [inflated_withMethod, hinner]
    rfl
  unfold received
  rw [Chaining.bind_of_ok hcaller, Chaining.bind_of_ok hopened, hinflated]

/-- An answer without a type is not compressed, and it has no body. -/
theorem finish_empty_body (i : Ingest) (acceptsGzip : Bool) (status : Nat) :
    (i.finish acceptsGzip (.empty status)).body = [] := by
  have htype : Headers.isCompressible (Headers.text? [] Headers.contentType) = false := rfl
  unfold finish HttpResponse.empty
  dsimp only
  rw [htype, Bool.and_false]
  rfl

/-- The path names a resource that is read by `GET` and by `HEAD`. -/
def IsRead (r : HttpRequest) : Prop :=
  ∃ resource, Resource.ofPath? r.uri.path = some resource ∧ resource.isRead = true

/-- The endpoints do not tell `HEAD` from `GET`. -/
theorem dispatch_head (i : Ingest) {r : HttpRequest} (hmethod : r.method = "HEAD") :
    i.dispatch r = i.dispatch (withMethod r "GET") := by
  unfold dispatch withMethod
  dsimp only
  split
  next => rfl
  next resource _ =>
    rw [hmethod]
    cases resource <;> rfl

/-- Where there is nothing to read, the answer has no body. -/
theorem dispatch_get (i : Ingest) {r : HttpRequest} (hmethod : r.method = "GET") :
    (i.dispatch r).EndsIn fun a => IsRead r ∨ ∃ status, a = .empty status := by
  unfold dispatch
  split
  next => exact .inr ⟨404, rfl⟩
  next resource hpath =>
    split
    next htakes =>
      have hread : resource.isRead = true := by
        rw [hmethod] at htakes
        cases resource <;> first | rfl | cases htakes
      exact endsIn_of_forall (fun _ => .inl ⟨resource, hpath, hread⟩) _
    next => exact .inr ⟨405, rfl⟩

/-- Outside of all layers, `HEAD` differs from `GET` in the body alone. -/
theorem present_head {r : HttpRequest} (hmethod : r.method = "HEAD") {a : HttpResponse}
    (h : IsRead r ∨ a.body = []) : present r a = bodiless (present (withMethod r "GET") a) := by
  have hsame (hbody : a.body = []) : a = bodiless a := by
    unfold bodiless
    rw [← hbody]
  unfold present withMethod
  dsimp only
  rcases h with ⟨resource, hpath, hread⟩ | hbody
  · rw [hpath, hmethod]
    simp [Resource.takes, hread, bodiless]
  · cases Resource.ofPath? r.uri.path with
    | none => exact hsame hbody
    | some resource =>
      rw [hmethod]
      cases hread : resource.isRead <;> simp [Resource.takes, hread, bodiless, hbody]

/-- `HEAD` is answered as `GET` is, after the same steps and with the same fields, but without the
body. -/
theorem handle_head {i : Ingest} {r inner : HttpRequest} (hr : i.received r = .ok inner)
    (hmethod : r.method = "HEAD") :
    i.handle r = (i.handle (withMethod r "GET")).map bodiless := by
  obtain ⟨hm, hu⟩ := received_target hr
  have hread : IsRead (withMethod inner "GET") → IsRead r := by
    rintro ⟨resource, hpath, hread⟩
    exact ⟨resource, hu ▸ hpath, hread⟩
  rw [handle_of_received hr, handle_of_received (received_withMethod hr (by decide)),
    dispatch_head i (hm.trans hmethod), map_map, map_map, map_map]
  refine (dispatch_get i rfl).map_congr fun a ha => present_head hmethod ?_
  rcases ha with hpath | ⟨status, rfl⟩
  · exact .inl (hread hpath)
  · exact .inr (finish_empty_body i _ status)

/-! ## 6. All answers -/

/-- An answer that a caller with the key verifies: it carries the tag of some plain body, compressed
or not, and undoing its layers gives that body. -/
def Verifiable (key : SigningKey) (a : HttpResponse) : Prop :=
  ∃ plain, SignedAnswer key plain a ∧
    (WireKeys.mk (some key) .none .none).decode (a.headers.payload a.body) = .ok plain

theorem verifiable_handle {i : Ingest} {key : SigningKey} (hkey : i.keys.signing = some key)
    {r inner : HttpRequest} (hr : i.received r = .ok inner) (hmethod : r.method ≠ "HEAD") :
    (i.handle r).EndsIn (Verifiable key) := by
  rw [handle_of_received hr, map_map]
  refine endsIn_map ((bare_dispatch i inner).mono fun a ha => ?_)
  have h := (signedAnswer_finish hkey inner.headers.acceptsGzip ha).present hmethod
  exact ⟨a.body, h, h.decode⟩

/-- What a server with a signing key answers to a request that the layers in front let through: any
method, any path, any fields and body, whatever its other keys and its network are, and whatever
its store answers.

* Unless the method is `HEAD`, the answer carries the tag of its plain body, and the body is
  compressed exactly if it is marked so; a caller with the key verifies it and reads it back.
* The answer to `HEAD` is the one to `GET`, which has these properties, without the body. -/
theorem answers_signed (i : Ingest) (key : SigningKey) (hkey : i.keys.signing = some key)
    (r inner : HttpRequest) (hr : i.received r = .ok inner) :
    (r.method ≠ "HEAD" → (i.handle r).EndsIn (Verifiable key)) ∧
    (r.method = "HEAD" → (i.handle (withMethod r "GET")).EndsIn (Verifiable key) ∧
      i.handle r = (i.handle (withMethod r "GET")).map bodiless) :=
  ⟨verifiable_handle hkey hr, fun hmethod =>
    ⟨verifiable_handle hkey (received_withMethod hr (by decide)) (show "GET" ≠ "HEAD" by decide),
      handle_head hr hmethod⟩⟩

/-- A path that leads nowhere is answered with a signature, and so is a question by `HEAD`. A write
whose caller takes compressed answers succeeds, and its answer is compressed and signed. -/
theorem answers_signed_nowhere :
    let key : SigningKey := ⟨Bytes.ofText "secret"⟩
    let i : Ingest := ⟨⟨some key, none, none⟩, none, ⟨none, true⟩⟩
    let r : HttpRequest := ⟨"DELETE", ⟨none, "", "/nowhere", none⟩, [], []⟩
    let q : HttpRequest := ⟨"HEAD", ⟨none, "", "/ping", none⟩, [], []⟩
    let document : Bytes := (Metric.ofUpdate ⟨"c", .counter 1⟩).toJson.write
    let w : HttpRequest := ⟨"POST", ⟨none, "", "/update/", none⟩,
      [(Headers.signature, Bytes.ofText (key.sign document)),
        (Headers.acceptEncoding, Bytes.ofText Headers.gzip)], document⟩
    let written (s : ServerState Ledger) : HttpResponse := ((i.handle w).run Ledger.store s).1
    (∀ s : ServerState Ledger, Verifiable key ((i.handle r).run Ledger.store s).1) ∧
      i.handle q = (i.handle (withMethod q "GET")).map bodiless ∧
      (∀ s, Verifiable key (written s)) ∧
      let s : ServerState Ledger := ⟨.empty, ⟨.empty⟩, [[]], 0⟩
      (written s).status = 200 ∧ (written s).headers.isGzip = true := by
  intro key i r q document w written
  have hmethod : r.method ≠ "HEAD" := by decide
  have hsigned := (answers_signed i key rfl r r rfl).1 hmethod
  have hwrite : w.method ≠ "HEAD" := by decide
  have hwritten := (answers_signed i key rfl w w rfl).1 hwrite
  exact ⟨fun s => hsigned.run Ledger.store s, ((answers_signed i key rfl q q rfl).2 rfl).2,
    fun s => hwritten.run Ledger.store s, by decide +kernel, by decide +kernel⟩

/-- Not every answer carries the tag of its body: a write from outside the network is refused
without any tag, and the answer to `HEAD` has the tag of the body that it does not have. -/
theorem answers_not_signed :
    let key : SigningKey := ⟨Bytes.ofText "secret"⟩
    let i : Ingest := ⟨⟨some key, none, none⟩, some (.v4 0x0a000000 8), ⟨none, true⟩⟩
    let r : HttpRequest := ⟨"POST", ⟨none, "", "/update/counter/c/1", none⟩, [], []⟩
    let q : HttpRequest := ⟨"HEAD", ⟨none, "", "/ping", none⟩, [], []⟩
    let s : ServerState Ledger := ⟨.empty, ⟨.empty⟩, [[]], 0⟩
    ((i.handle r).run Ledger.store s).1.headers.values Headers.signature = [] ∧
      ((i.handle q).run Ledger.store s).1.body = [] ∧
      ((i.handle q).run Ledger.store s).1.headers.values Headers.signature =
        [Bytes.ofText (key.sign (Bytes.ofText "OK"))] ∧
      key.sign (Bytes.ofText "OK") ≠ key.sign [] := by
  intro key i r q s
  exact ⟨by decide +kernel, by decide +kernel, by decide +kernel, by decide +kernel⟩

end Ingest
end Metering
