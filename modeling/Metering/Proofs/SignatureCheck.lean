import Metering.Proofs.CallerCheck
import Metering.Proofs.RequestMarks

/-!
Where the signature of a request is asked for.

A server with a signing key takes a body only with the tag of the body, as the layers leave it.
The check is not a layer: each endpoint that reads a body makes it. An update by path has no body,
and its endpoint makes no check, so whoever reaches the server can write one update by its path.
`unsigned_write` is such a request.

Results:
1. `received_signature`: the layers leave the tag of a request alone.
2. `unsigned_refused`: a write with a body and without its tag is refused before the first step.
3. `path_update_unchecked`: an update by path is the same task as on a server without a key, up to
   the mark of its answer.
4. `signature_checked`: what a signing key covers, for every request.
-/
namespace Metering.Ingest

open ServerTask

/-- A request that carries the tag of its plain body under a key: in hexadecimal, perhaps between
blanks, beside the body that the layers leave. -/
def Signed (i : Ingest) (key : SigningKey) (r : HttpRequest) : Prop :=
  ∃ inner tag, i.received r = .ok inner ∧ r.headers.text? Headers.signature = some tag ∧
    Hex.decode? (Text.trim tag).toList = some (Hmac.tag key.secret inner.body)

/-- A request that spells its update in its path. -/
def IsPathUpdate (r : HttpRequest) : Prop :=
  ∃ kind id value, Resource.ofPath? r.uri.path = some (.updateAt kind id value)

/-- The server without its signing key. -/
def withoutSigning (i : Ingest) : Ingest := { i with keys := { i.keys with signing := none } }

/-! ## 1. The tag behind the layers -/

theorem opened_behind {i : Ingest} {r mid : HttpRequest} (h : i.opened r = .ok mid) :
    Behind Headers.sealed r mid := by
  rcases opened_cases h with rfl | ⟨body, rfl⟩
  · exact .refl _ _
  · exact behind_without _ _ body

theorem inflated_behind {mid inner : HttpRequest} (h : inflated mid = .ok inner) :
    Behind Headers.contentEncoding mid inner := by
  rcases inflated_cases h with rfl | ⟨body, rfl⟩
  · exact .refl _ _
  · exact behind_without _ _ body

/-- The layers leave every field of a request alone but their own. -/
theorem received_text? {i : Ingest} {r inner : HttpRequest} (h : i.received r = .ok inner)
    {name : String} (hsealed : name ≠ Headers.sealed) (hcoding : name ≠ Headers.contentEncoding) :
    inner.headers.text? name = r.headers.text? name := by
  obtain ⟨-, -, h⟩ := Chaining.ok_of_bind h
  obtain ⟨mid, hmid, h⟩ := Chaining.ok_of_bind h
  rw [(inflated_behind h).text? _ hcoding, (opened_behind hmid).text? _ hsealed]

/-- So they leave the tag of a request, -/
theorem received_signature {i : Ingest} {r inner : HttpRequest} (h : i.received r = .ok inner) :
    inner.headers.text? Headers.signature = r.headers.text? Headers.signature :=
  received_text? h (by decide) (by decide)

/-- and the address that it states for its caller. -/
theorem received_source {i : Ingest} {r inner : HttpRequest} (h : i.received r = .ok inner) :
    source inner = source r := received_text? h (by decide) (by decide)

/-- A body that passes the check belongs to a signed request. -/
theorem signed_of_verify {i : Ingest} {key : SigningKey} (hkey : i.keys.signing = some key)
    {r inner : HttpRequest} (hr : i.received r = .ok inner)
    (h : i.keys.verify inner.body (inner.headers.text? Headers.signature) = .ok ()) :
    Signed i key r := by
  unfold WireKeys.verify at h
  rw [hkey, received_signature hr] at h
  obtain ⟨tag, htag, hgood⟩ := SigningKey.verify_eq_ok_iff.mp h
  exact ⟨inner, tag, hr, htag, hgood⟩

/-! ## 2. Writes with a body -/

theorem withBody_unverified {i : Ingest} {r : HttpRequest} {decode : Bytes → Except JsonFault α}
    {next : α → ServerTask HttpResponse}
    (h : i.keys.verify r.body (r.headers.text? Headers.signature) ≠ .ok ()) :
    Rejects (i.withBody r decode next) := by
  rcases withBody_cases i r decode next with ⟨hsound, -⟩ | ⟨-, hrejects⟩
  · exact absurd hsound.signed h
  · exact hrejects

/-- What surrounds an endpoint hands a refusal on. -/
theorem handle_rejects {i : Ingest} {r inner : HttpRequest} (hr : i.received r = .ok inner)
    (h : Rejects (i.dispatch inner)) : Rejects (i.handle r) := by
  obtain ⟨a, ha, hdone⟩ := h
  refine ⟨present r (i.finish inner.headers.acceptsGzip a), ?_, ?_⟩
  · rw [present_status, finish_status]
    exact ha
  · rw [handle_of_received hr, hdone]
    rfl

theorem unsigned_refused {i : Ingest} {key : SigningKey} (hkey : i.keys.signing = some key)
    {r : HttpRequest} (hw : IsWrite r) (hpath : ¬ IsPathUpdate r) (h : ¬ Signed i key r) :
    Rejects (i.handle r) := by
  cases hr : i.received r with
  | error f =>
    refine ⟨present r (Refusal.failure f).response, ?_, ?_⟩
    · rw [present_status]
      exact Refusal.status_ge (.failure f)
    · rw [handle_of_refused hr]
      rfl
  | ok inner =>
    obtain ⟨hmethod, resource, hof, hwrite⟩ := hw
    obtain ⟨hm, hu⟩ := received_target hr
    have hunverified : i.keys.verify inner.body (inner.headers.text? Headers.signature) ≠ .ok () :=
      fun hv => h (signed_of_verify hkey hr hv)
    refine handle_rejects hr ?_
    rw [dispatch_of_post (hu ▸ hof) (hm.trans hmethod) hwrite]
    cases resource with
    | updateAt kind id value => exact absurd ⟨kind, id, value, hof⟩ hpath
    | update => exact withBody_unverified hunverified
    | updates => exact withBody_unverified hunverified
    | valueAt kind id => cases hwrite
    | value => cases hwrite
    | ping => cases hwrite

/-! ## 3. Updates by path -/

theorem dispatch_path_update (i : Ingest) {r : HttpRequest} (h : IsPathUpdate r) :
    i.withoutSigning.dispatch r = i.dispatch r := by
  obtain ⟨kind, id, value, hof⟩ := h
  unfold dispatch
  rw [hof]
  rfl

/-- An update by path ends as on a server without a signing key, whatever tag it carries. -/
theorem path_update_unchecked (i : Ingest) {r : HttpRequest} (h : IsPathUpdate r)
    (s : ServerState Ledger) :
    ((i.handle r).run Ledger.store s).1.status =
        ((i.withoutSigning.handle r).run Ledger.store s).1.status ∧
      ((i.handle r).run Ledger.store s).2 = ((i.withoutSigning.handle r).run Ledger.store s).2 := by
  cases hr : i.received r with
  | error f =>
    rw [handle_of_refused hr, handle_of_refused (i := i.withoutSigning) hr]
    exact ⟨rfl, rfl⟩
  | ok inner =>
    have hinner : IsPathUpdate inner := by
      unfold IsPathUpdate
      rwa [(received_target hr).2]
    have hrun := run_handle_of_received hr Ledger.store s
    have hplain := run_handle_of_received (i := i.withoutSigning) hr Ledger.store s
    rw [dispatch_path_update i hinner] at hplain
    exact ⟨hrun.1.trans hplain.1.symm, hrun.2.trans hplain.2.symm⟩

/-! ## 4. What a signing key covers -/

/-- What a server with a signing key asks of its callers.

* A request that can touch the store, the file or the audit trail, or that changes anything when
  it is run, carries the tag of its plain body, unless it spells its update in its path.
* A writing request with a body and without that tag (it is missing, or no digits, or of something
  else) is answered with an error, and nothing is done.
* An update by path has the status and the effect that it has on the server without its signing
  key: no tag is asked for, and none is looked at. -/
theorem signature_checked (i : Ingest) (key : SigningKey) (hkey : i.keys.signing = some key) :
    (∀ r, (i.handle r).Touches ∨ (∃ s, ((i.handle r).run Ledger.store s).2 ≠ s) →
      Signed i key r ∨ IsPathUpdate r) ∧
    (∀ r, IsWrite r → ¬ IsPathUpdate r → ¬ Signed i key r →
      ∃ a, 400 ≤ a.status ∧ i.handle r = .done a) ∧
    (∀ r s, IsPathUpdate r →
      ((i.handle r).run Ledger.store s).1.status =
          ((i.withoutSigning.handle r).run Ledger.store s).1.status ∧
        ((i.handle r).run Ledger.store s).2 =
          ((i.withoutSigning.handle r).run Ledger.store s).2) := by
  have htouches : ∀ r, (i.handle r).Touches → Signed i key r ∨ IsPathUpdate r := by
    intro r ht
    by_contra hneither
    obtain ⟨hunsigned, hpath⟩ := not_or.mp hneither
    obtain ⟨a, -, hdone⟩ := unsigned_refused hkey (isWrite_of_touches ht) hpath hunsigned
    rw [hdone] at ht
    exact ht
  refine ⟨?_, fun r hw hpath h => unsigned_refused hkey hw hpath h,
    fun r s h => path_update_unchecked i h s⟩
  rintro r (ht | ⟨s, hs⟩)
  · exact htouches r ht
  · exact htouches r (not_not.mp fun ht => hs (run_of_not_touches ht s))

/-- A list without a tag is refused by a server with a key. -/
theorem signature_checked_untagged_list :
    let i : Ingest := ⟨⟨some ⟨Bytes.ofText "secret"⟩, none, none⟩, none, ⟨none, true⟩⟩
    let r : HttpRequest := ⟨"POST", ⟨none, "", "/updates", none⟩, [], Bytes.ofText "[]"⟩
    ∃ a, 400 ≤ a.status ∧ i.handle r = .done a := by
  intro i r
  have hof : Resource.ofPath? r.uri.path = some .updates := by decide +kernel
  refine (signature_checked i ⟨Bytes.ofText "secret"⟩ rfl).2.1 r ⟨rfl, _, hof, rfl⟩ ?_ ?_
  · rintro ⟨kind, id, value, h⟩
    rw [hof] at h
    cases h
  · rintro ⟨inner, tag, -, htag, -⟩
    cases htag

/-- Not every change is signed: a server with a key counts what a request without a tag spells in
its path. -/
theorem unsigned_write :
    let i : Ingest := ⟨⟨some ⟨Bytes.ofText "secret"⟩, none, none⟩, none, ⟨none, true⟩⟩
    let r : HttpRequest := ⟨"POST", ⟨none, "", "/update/counter/c/1", none⟩, [], []⟩
    let s : ServerState Ledger := ⟨.empty, ⟨.empty⟩, [[]], 0⟩
    ((i.handle r).run Ledger.store s).2.store.get? .counter "c" = some (.counter 1) ∧
      s.store.get? .counter "c" = none ∧
      ¬ Signed i ⟨Bytes.ofText "secret"⟩ r := by
  intro i r s
  refine ⟨by decide +kernel, by decide +kernel, ?_⟩
  rintro ⟨inner, tag, -, htag, -⟩
  cases htag

end Metering.Ingest
