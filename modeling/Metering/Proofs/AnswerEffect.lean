import Mathlib.Control.Monad.Basic
import Metering.Ingest.Calls
import Metering.Proofs.Chaining
import Metering.Proofs.ServiceRuns

/-!
An answer says what happened.

A request is refused at many places: by the layers, by the checks of its body, by its records one
after another, by the ledger in the middle of a batch. The write is the only step that changes the
ledger, and everything behind it (saving, publishing, signing, compressing) can fail without
turning the answer into a refusal.

`Requests` says what a request asks to write, without looking at any task: the layers let it
through, its path and method name a writing resource, its body is sound, and these are the updates
that it spells. Results:
1. `Describes.unique`: a request spells one list of updates.
2. `writing_endpoint`: a writing endpoint commits what the request describes, or nothing.
3. `reading_endpoint`, `run_call_cases`: the other endpoints and the calls.
4. `answer_matches_effect`: over both transports, an answer other than a success means that
   nothing changed, and a success to a write means that exactly its updates were applied.
-/
namespace Metering

/-- Whether a resource is there to be written. -/
def Resource.isWrite : Resource → Bool
  | .updateAt _ _ _ | .update | .updates => true
  | _ => false

theorem Resource.isRead_of_isWrite {resource : Resource} (h : resource.isWrite = true) :
    resource.isRead = false := by
  cases resource <;> first | rfl | cases h

namespace Ingest

/-- A body that is not too long and carries a good signature, if one is asked for. -/
structure SoundBody (i : Ingest) (r : HttpRequest) : Prop where
  short : r.body.length ≤ maxBody
  signed : i.keys.verify r.body (r.headers.text? Headers.signature) = .ok ()

/-- The updates that a request for a resource spells, once the outer layers are off: in its path,
as one record or as a list of records. -/
inductive Describes (i : Ingest) (r : HttpRequest) : Resource → List Update → Prop
  | path {rawKind rawId rawValue name id text : String} {kind : Kind} {v : Value} :
      Resource.part "kind" rawKind = .ok name → Resource.part "id" rawId = .ok id →
      Resource.part "value" rawValue = .ok text → id ≠ "" → Kind.parse name = .ok kind →
      Value.parse kind text = .ok v →
      Describes i r (.updateAt rawKind rawId rawValue) [⟨id, v⟩]
  | record {m : Metric} {u : Update} :
      SoundBody i r → Metric.decode r.body = .ok m → m.toUpdate = .ok u →
      Describes i r .update [u]
  | list {ms : List Metric} {us : List Update} :
      SoundBody i r → Metric.decodeList r.body = .ok ms → ms ≠ [] →
      ms.mapM Metric.toUpdate = .ok us → Describes i r .updates us

/-- What a request asks to write: the layers let it through, and what they leave describes these
updates. -/
def Requests (i : Ingest) (r : HttpRequest) (us : List Update) : Prop :=
  ∃ inner resource, i.received r = .ok inner ∧ inner.method = "POST" ∧
    Resource.ofPath? inner.uri.path = some resource ∧ Describes i inner resource us

/-- The path and the method of a request name a resource that is there to be written. -/
def IsWrite (r : HttpRequest) : Prop :=
  r.method = "POST" ∧ ∃ resource, Resource.ofPath? r.uri.path = some resource ∧
    resource.isWrite = true

/-! ## 1. What a request describes -/

theorem Describes.unique {i : Ingest} {r : HttpRequest} {resource : Resource}
    {us vs : List Update} (h : Describes i r resource us) (k : Describes i r resource vs) :
    us = vs := by
  cases h with
  | path h1 h2 h3 _ h5 h6 =>
    cases k with
    | path k1 k2 k3 _ k5 k6 =>
      obtain rfl := Except.ok.inj (h1.symm.trans k1)
      obtain rfl := Except.ok.inj (h2.symm.trans k2)
      obtain rfl := Except.ok.inj (h3.symm.trans k3)
      obtain rfl := Except.ok.inj (h5.symm.trans k5)
      obtain rfl := Except.ok.inj (h6.symm.trans k6)
      rfl
  | record _ h2 h3 =>
    cases k with
    | record _ k2 k3 =>
      obtain rfl := Except.ok.inj (h2.symm.trans k2)
      obtain rfl := Except.ok.inj (h3.symm.trans k3)
      rfl
  | list _ h2 _ h4 =>
    cases k with
    | list _ k2 _ k4 =>
      obtain rfl := Except.ok.inj (h2.symm.trans k2)
      obtain rfl := Except.ok.inj (h4.symm.trans k4)
      rfl

theorem Describes.isWrite {i : Ingest} {r : HttpRequest} {resource : Resource}
    {us : List Update} (h : Describes i r resource us) : resource.isWrite = true := by
  cases h <;> rfl

/-! ## 2. Writing endpoints -/

/-- How an attempt to write ends: with the fold of the updates and a success, or with a refusal
and no change. -/
def Commits (i : Ingest) (source : Option String) (us : List Update) (s : ServerState Ledger)
    (out : HttpResponse × ServerState Ledger) : Prop :=
  match us.foldlM Ledger.apply s.store with
  | .ok l => out.1.status = 200 ∧
      out.2 = i.service.followed (us.map Update.id) source { s with store := l }
  | .error e => out.1.status = (Refusal.fault e).status ∧ out.2 = s

/-- A refusal and no change. -/
def Refuses (s : ServerState Ledger) (out : HttpResponse × ServerState Ledger) : Prop :=
  400 ≤ out.1.status ∧ out.2 = s

theorem run_answering (store : Store σ) (t : ServerTask (Except Refusal α))
    (f : α → HttpResponse) (s : ServerState σ) :
    (answering t f).run store s =
      (match (t.run store s).1 with
        | .ok a => f a
        | .error e => e.response, (t.run store s).2) :=
  ServerTask.run_map store _ t s

/-- An error and no step. -/
def Rejects (t : ServerTask HttpResponse) : Prop := ∃ a, 400 ≤ a.status ∧ t = .done a

theorem rejects_refuse (f : Failure) : Rejects (refuse f) :=
  ⟨_, Refusal.status_ge (.failure f), rfl⟩

theorem Rejects.refuses {t : ServerTask HttpResponse} (h : Rejects t) (s : ServerState Ledger) :
    Refuses s (t.run Ledger.store s) := by
  obtain ⟨a, ha, rfl⟩ := h
  exact ⟨ha, rfl⟩

theorem refuses_refuse (f : Failure) (s : ServerState Ledger) :
    Refuses s ((refuse f).run Ledger.store s) := (rejects_refuse f).refuses s

theorem commits_updateAll (i : Ingest) (source : Option String) (us : List Update)
    (s : ServerState Ledger) {answer : Unit → HttpResponse} (h : (answer ()).status = 200) :
    Commits i source us s
      ((answering (i.service.updateAll us source) answer).run Ledger.store s) := by
  rw [run_answering, Service.run_updateAll]
  unfold Commits
  cases us.foldlM Ledger.apply s.store with
  | error e => exact ⟨rfl, rfl⟩
  | ok l => exact ⟨h, rfl⟩

theorem commits_update (i : Ingest) (source : Option String) (u : Update)
    (s : ServerState Ledger) {answer : Unit → HttpResponse} (h : (answer ()).status = 200) :
    Commits i source [u] s
      ((answering (i.service.update u source) answer).run Ledger.store s) := by
  rw [run_answering, Service.run_update, ← run_answering]
  exact commits_updateAll i source [u] s h

/-- A body is read, or the request is refused. -/
theorem withBody_cases (i : Ingest) (r : HttpRequest) (decode : Bytes → Except JsonFault α)
    (next : α → ServerTask HttpResponse) :
    (SoundBody i r ∧ ∃ a, decode r.body = .ok a ∧ i.withBody r decode next = next a) ∨
    (¬ (SoundBody i r ∧ ∃ a, decode r.body = .ok a) ∧ Rejects (i.withBody r decode next)) := by
  unfold withBody
  split
  next hlong =>
    refine .inr ⟨?_, .plain 413 longBodyReason, ?_, rfl⟩
    · rintro ⟨hsound, -⟩
      exact absurd hsound.short (Nat.not_le.mpr hlong)
    · exact (by decide : 400 ≤ 413)
  next hshort =>
    unfold readBody
    cases hv : i.keys.verify r.body (r.headers.text? Headers.signature) with
    | error f =>
      refine .inr ⟨?_, rejects_refuse f⟩
      rintro ⟨hsound, -⟩
      rw [hsound.signed] at hv
      cases hv
    | ok =>
      cases hd : decode r.body with
      | error e =>
        refine .inr ⟨?_, rejects_refuse _⟩
        rintro ⟨-, a, ha⟩
        cases ha
      | ok a => exact .inl ⟨⟨by omega, hv⟩, a, rfl, rfl⟩

theorem endpoint_updateAt (i : Ingest) (r : HttpRequest) (rawKind rawId rawValue : String)
    (s : ServerState Ledger) :
    (∃ us, Describes i r (.updateAt rawKind rawId rawValue) us ∧
      Commits i (source r) us s ((i.updateAt r rawKind rawId rawValue).run Ledger.store s)) ∨
    ((∀ us, ¬ Describes i r (.updateAt rawKind rawId rawValue) us) ∧
      Refuses s ((i.updateAt r rawKind rawId rawValue).run Ledger.store s)) := by
  have hbad : Refuses s (HttpResponse.plain 400 "", s) := ⟨Nat.le_refl 400, rfl⟩
  unfold updateAt
  cases hk : Resource.part "kind" rawKind with
  | error reason =>
    refine .inr ⟨?_, hbad.1, rfl⟩
    intro us hd
    cases hd with
    | path h1 => rw [hk] at h1; cases h1
  | ok name =>
    cases hi : Resource.part "id" rawId with
    | error reason =>
      refine .inr ⟨?_, hbad.1, rfl⟩
      intro us hd
      cases hd with
      | path _ h2 => rw [hi] at h2; cases h2
    | ok id =>
      cases hv : Resource.part "value" rawValue with
      | error reason =>
        refine .inr ⟨?_, hbad.1, rfl⟩
        intro us hd
        cases hd with
        | path _ _ h3 => rw [hv] at h3; cases h3
      | ok text =>
        -- The parts are texts; what is left are the checks of the update that they spell.
        simp only [bind, Except.bind, pure, Except.pure, updateOfParts]
        split
        next f hf =>
          refine .inr ⟨?_, refuses_refuse f s⟩
          intro us hd
          cases hd with
          | path h1 h2 h3 h4 h5 h6 =>
            obtain rfl := Except.ok.inj (hk.symm.trans h1)
            obtain rfl := Except.ok.inj (hi.symm.trans h2)
            obtain rfl := Except.ok.inj (hv.symm.trans h3)
            simp only [if_neg h4, h5, h6] at hf
            cases hf
        next u hu =>
          split at hu
          next => cases hu
          next hne =>
            split at hu
            next => cases hu
            next kind hkind =>
              split at hu
              next => cases hu
              next v hvalue =>
                obtain rfl := Except.ok.inj hu
                exact .inl ⟨_, .path hk hi hv hne hkind hvalue, commits_update i _ _ s rfl⟩

theorem endpoint_update (i : Ingest) (r : HttpRequest) (s : ServerState Ledger) :
    (∃ us, Describes i r .update us ∧
      Commits i (source r) us s ((i.update r).run Ledger.store s)) ∨
    ((∀ us, ¬ Describes i r .update us) ∧ Refuses s ((i.update r).run Ledger.store s)) := by
  unfold update
  rcases withBody_cases i r Metric.decode _ with ⟨hsound, m, hm, hnext⟩ | ⟨hbad, hrefuse⟩
  · rw [hnext]
    cases hu : m.toUpdate with
    | error f =>
      refine .inr ⟨?_, refuses_refuse f s⟩
      intro us hd
      cases hd with
      | record _ h2 h3 =>
        obtain rfl := Except.ok.inj (hm.symm.trans h2)
        rw [hu] at h3
        cases h3
    | ok u => exact .inl ⟨[u], .record hsound hm hu, commits_update i _ u s rfl⟩
  · refine .inr ⟨?_, hrefuse.refuses s⟩
    intro us hd
    cases hd with
    | record h1 h2 _ => exact hbad ⟨h1, _, h2⟩

theorem endpoint_updates (i : Ingest) (r : HttpRequest) (s : ServerState Ledger) :
    (∃ us, Describes i r .updates us ∧
      Commits i (source r) us s ((i.updates r).run Ledger.store s)) ∨
    ((∀ us, ¬ Describes i r .updates us) ∧ Refuses s ((i.updates r).run Ledger.store s)) := by
  unfold updates
  rcases withBody_cases i r Metric.decodeList _ with ⟨hsound, ms, hms, hnext⟩ | ⟨hbad, hrefuse⟩
  · rw [hnext]
    split
    next hnil =>
      refine .inr ⟨?_, refuses_refuse _ s⟩
      intro us hd
      cases hd with
      | list _ h2 h3 _ =>
        obtain rfl := Except.ok.inj (hms.symm.trans h2)
        exact h3 hnil
    next hne =>
      cases hus : ms.mapM Metric.toUpdate with
      | error f =>
        refine .inr ⟨?_, refuses_refuse f s⟩
        intro us hd
        cases hd with
        | list _ h2 _ h4 =>
          obtain rfl := Except.ok.inj (hms.symm.trans h2)
          rw [hus] at h4
          cases h4
      | ok us => exact .inl ⟨us, .list hsound hms hne hus, commits_updateAll i _ us s rfl⟩
  · refine .inr ⟨?_, hrefuse.refuses s⟩
    intro us hd
    cases hd with
    | list h1 h2 _ _ => exact hbad ⟨h1, _, h2⟩

/-- A writing endpoint commits what the request describes, or it refuses a request that describes
nothing. -/
theorem writing_endpoint (i : Ingest) (r : HttpRequest) {resource : Resource}
    (h : resource.isWrite = true) (s : ServerState Ledger) :
    (∃ us, Describes i r resource us ∧
      Commits i (source r) us s ((i.endpoint r resource).run Ledger.store s)) ∨
    ((∀ us, ¬ Describes i r resource us) ∧
      Refuses s ((i.endpoint r resource).run Ledger.store s)) := by
  cases resource with
  | updateAt kind id value => exact endpoint_updateAt i r kind id value s
  | update => exact endpoint_update i r s
  | updates => exact endpoint_updates i r s
  | valueAt kind id => cases h
  | value => cases h
  | ping => cases h

/-! ## 3. The other endpoints, and calls -/

theorem run_answering_read (kind : Kind) (id : String) (f : Value → HttpResponse)
    (s : ServerState Ledger) :
    ((answering (Service.read kind id) f).run Ledger.store s).2 = s := by
  rw [run_answering, Service.run_read]

/-- Reading changes nothing, whatever the answer. -/
theorem reading_endpoint (i : Ingest) (r : HttpRequest) {resource : Resource}
    (h : resource.isWrite = false) (s : ServerState Ledger) :
    ((i.endpoint r resource).run Ledger.store s).2 = s := by
  cases resource with
  | updateAt kind id value => cases h
  | update => cases h
  | updates => cases h
  | valueAt kind id =>
    simp only [endpoint, valueAt]
    split
    next => rfl
    next =>
      split
      next => rfl
      next => exact run_answering_read _ _ _ s
  | value =>
    simp only [endpoint, value]
    rcases withBody_cases i r Metric.decode _ with ⟨-, m, -, hnext⟩ | ⟨-, hrefuse⟩
    · rw [hnext]
      split
      next => rfl
      next => exact run_answering_read _ _ _ s
    · exact (hrefuse.refuses s).2
  | ping => rfl

/-- The reply to a call is a success with the fold of the entries that count, or something else
and no change. -/
theorem run_call_cases (i : Ingest) (c : RpcCall) (s : ServerState Ledger) :
    ((i.call c).run Ledger.store s).1.status ≠ .ok ∧ ((i.call c).run Ledger.store s).2 = s ∨
    ∃ es us, c.method = updateMethod ∧ entries c.args = .ok es ∧
      (counted es).mapM Metric.toUpdate = .ok us ∧
      ((i.call c).run Ledger.store s).1.status = .ok ∧
      us.foldlM Ledger.apply s.store = .ok ((i.call c).run Ledger.store s).2.store ∧
      (us = [] → ((i.call c).run Ledger.store s).2 = s) := by
  unfold call
  dsimp only
  split
  next => exact .inl ⟨by simp [ServerTask.run, RpcReply.failed], rfl⟩
  next =>
    split
    next hmethod =>
      unfold updateCall
      cases he : entries c.args with
      | error e => exact .inl ⟨by simp [ServerTask.run, RpcReply.failed], rfl⟩
      | ok es =>
        dsimp only
        cases hus : (counted es).mapM Metric.toUpdate with
        | error f => exact .inl ⟨by simp [ServerTask.run, RpcReply.failed], rfl⟩
        | ok us =>
          cases us with
          | nil => exact .inr ⟨es, [], hmethod, rfl, hus, rfl, rfl, fun _ => rfl⟩
          | cons u us =>
            simp only [ServerTask.run_map, Service.run_updateAll]
            cases hfold : (u :: us).foldlM Ledger.apply s.store with
            | error e =>
              refine .inl ⟨?_, rfl⟩
              dsimp only [refusedReply, RpcReply.failed]
              split <;> simp
            | ok l => exact .inr ⟨es, u :: us, hmethod, rfl, hus, rfl, hfold, fun h => by cases h⟩
    next => exact .inl ⟨by simp [ServerTask.run, RpcReply.failed], rfl⟩

/-! ## 4. The layers -/

theorem present_status (r : HttpRequest) (a : HttpResponse) : (present r a).status = a.status := by
  unfold present
  split
  next => rfl
  next =>
    split
    next => split <;> rfl
    next => rfl

theorem finish_status (i : Ingest) (acceptsGzip : Bool) (a : HttpResponse) :
    (i.finish acceptsGzip a).status = a.status := by
  unfold finish
  dsimp only
  split <;> rfl

/-- The layer for sealed bodies leaves a request alone, or puts the plain body into it. -/
theorem opened_cases {i : Ingest} {r mid : HttpRequest} (h : i.opened r = .ok mid) :
    mid = r ∨ ∃ body, mid = without r Headers.sealed body := by
  unfold opened at h
  split at h
  next =>
    obtain ⟨_, -, h⟩ := Chaining.ok_of_bind h
    obtain ⟨body, -, h⟩ := Chaining.ok_of_bind h
    exact .inr ⟨body, (Except.ok.inj h).symm⟩
  next => exact .inl (Except.ok.inj h).symm

/-- So does the layer for compressed bodies. -/
theorem inflated_cases {mid inner : HttpRequest} (h : inflated mid = .ok inner) :
    inner = mid ∨ ∃ body, inner = without mid Headers.contentEncoding body := by
  unfold inflated at h
  split at h
  next =>
    obtain ⟨_, -, h⟩ := Chaining.ok_of_bind h
    obtain ⟨body, -, h⟩ := Chaining.ok_of_bind h
    exact .inr ⟨body, (Except.ok.inj h).symm⟩
  next => exact .inl (Except.ok.inj h).symm

/-- The layers change the body and the fields of a request, but not what it is for. -/
theorem received_target {i : Ingest} {r inner : HttpRequest} (h : i.received r = .ok inner) :
    inner.method = r.method ∧ inner.uri = r.uri := by
  obtain ⟨-, -, h⟩ := Chaining.ok_of_bind h
  obtain ⟨mid, hmid, h⟩ := Chaining.ok_of_bind h
  have ho : mid.method = r.method ∧ mid.uri = r.uri := by
    rcases opened_cases hmid with rfl | ⟨body, rfl⟩ <;> exact ⟨rfl, rfl⟩
  have hi : inner.method = mid.method ∧ inner.uri = mid.uri := by
    rcases inflated_cases h with rfl | ⟨body, rfl⟩ <;> exact ⟨rfl, rfl⟩
  exact ⟨hi.1.trans ho.1, hi.2.trans ho.2⟩

theorem handle_of_refused {i : Ingest} {r : HttpRequest} {f : Failure}
    (h : i.received r = .error f) : i.handle r = (refuse f).map (present r) := by
  rw [handle, h]

theorem handle_of_received {i : Ingest} {r inner : HttpRequest} (h : i.received r = .ok inner) :
    i.handle r = ((i.dispatch inner).map (i.finish inner.headers.acceptsGzip)).map (present r) := by
  rw [handle, h]

/-- What surrounds an endpoint changes neither the status of its answer nor its effect. -/
theorem run_handle_of_received {i : Ingest} {r inner : HttpRequest} (h : i.received r = .ok inner)
    (store : Store σ) (s : ServerState σ) :
    ((i.handle r).run store s).1.status = ((i.dispatch inner).run store s).1.status ∧
    ((i.handle r).run store s).2 = ((i.dispatch inner).run store s).2 := by
  rw [handle_of_received h, ServerTask.run_map, ServerTask.run_map, present_status, finish_status]
  exact ⟨rfl, rfl⟩

/-- A request to a resource that is not there to be read ends as its endpoint does. -/
theorem dispatch_of_not_read {i : Ingest} {r : HttpRequest} {resource : Resource}
    (hpath : Resource.ofPath? r.uri.path = some resource) (hmethod : r.method = "POST")
    (hread : resource.isRead = false) : i.dispatch r = i.endpoint r resource := by
  unfold dispatch
  rw [hpath]
  simp [Resource.takes, hread, hmethod]

theorem dispatch_of_post {i : Ingest} {r : HttpRequest} {resource : Resource}
    (hpath : Resource.ofPath? r.uri.path = some resource) (hmethod : r.method = "POST")
    (hwrite : resource.isWrite = true) : i.dispatch r = i.endpoint r resource :=
  dispatch_of_not_read hpath hmethod (Resource.isRead_of_isWrite hwrite)

theorem run_dispatch_of_not_write {i : Ingest} {r : HttpRequest} (h : ¬ IsWrite r)
    (s : ServerState Ledger) : ((i.dispatch r).run Ledger.store s).2 = s := by
  unfold dispatch
  split
  next => rfl
  next resource hpath =>
    split
    next htakes =>
      refine reading_endpoint i r ?_ s
      cases hw : resource.isWrite with
      | false => rfl
      | true =>
        refine absurd ⟨?_, resource, hpath, hw⟩ h
        simpa [Resource.takes, Resource.isRead_of_isWrite hw] using htakes
    next => rfl

theorem isSuccess_of_status {a : HttpResponse} (h : a.status = 200) : a.isSuccess = true := by
  unfold HttpResponse.isSuccess
  rw [h]
  rfl

theorem not_isSuccess_of_status {a : HttpResponse} (h : 400 ≤ a.status) : a.isSuccess = false := by
  unfold HttpResponse.isSuccess
  rw [Bool.and_eq_false_iff]
  exact .inr (decide_eq_false (by omega))

/-- A writing request, seen from outside: it commits the updates that it requests, or it requests
none and is refused. -/
theorem run_handle_of_write (i : Ingest) {r : HttpRequest} (h : IsWrite r)
    (s : ServerState Ledger) :
    (∃ us, Requests i r us ∧ ∃ source, Commits i source us s ((i.handle r).run Ledger.store s)) ∨
    ((∀ us, ¬ Requests i r us) ∧ Refuses s ((i.handle r).run Ledger.store s)) := by
  obtain ⟨hmethod, resource, hpath, hwrite⟩ := h
  cases hr : i.received r with
  | error f =>
    refine .inr ⟨?_, ?_⟩
    · rintro us ⟨inner, _, hinner, -⟩
      rw [hr] at hinner
      cases hinner
    · rw [handle_of_refused hr, ServerTask.run_map]
      unfold Refuses
      rw [present_status]
      exact refuses_refuse f s
  | ok inner =>
    obtain ⟨hm, hu⟩ := received_target hr
    obtain ⟨hstatus, heffect⟩ := run_handle_of_received hr Ledger.store s
    rw [dispatch_of_post (hu ▸ hpath) (hm.trans hmethod) hwrite] at hstatus heffect
    rcases writing_endpoint i inner hwrite s with ⟨us, hd, hc⟩ | ⟨hnone, hrefuse⟩
    · refine .inl ⟨us, ⟨inner, resource, hr, hm.trans hmethod, hu ▸ hpath, hd⟩,
        source inner, ?_⟩
      unfold Commits at hc ⊢
      rw [hstatus, heffect]
      exact hc
    · refine .inr ⟨?_, ?_⟩
      · rintro us ⟨inner', resource', hinner', -, hpath', hd⟩
        obtain rfl := Except.ok.inj (hr.symm.trans hinner')
        rw [hu, hpath] at hpath'
        obtain rfl := Option.some.inj hpath'
        exact hnone us hd
      · unfold Refuses at hrefuse ⊢
        rw [hstatus, heffect]
        exact hrefuse

theorem Requests.unique {i : Ingest} {r : HttpRequest} {us vs : List Update}
    (h : Requests i r us) (k : Requests i r vs) : us = vs := by
  obtain ⟨inner, resource, hr, -, hpath, hd⟩ := h
  obtain ⟨inner', resource', hr', -, hpath', hd'⟩ := k
  obtain rfl := Except.ok.inj (hr.symm.trans hr')
  obtain rfl := Option.some.inj (hpath.symm.trans hpath')
  exact hd.unique hd'

theorem Requests.isWrite {i : Ingest} {r : HttpRequest} {us : List Update}
    (h : Requests i r us) : IsWrite r := by
  obtain ⟨inner, resource, hr, hmethod, hpath, hd⟩ := h
  obtain ⟨hm, hu⟩ := received_target hr
  exact ⟨hm ▸ hmethod, resource, hu ▸ hpath, hd.isWrite⟩

theorem run_handle_of_not_write (i : Ingest) {r : HttpRequest} (h : ¬ IsWrite r)
    (s : ServerState Ledger) : ((i.handle r).run Ledger.store s).2 = s := by
  cases hr : i.received r with
  | error f =>
    rw [handle_of_refused hr, ServerTask.run_map]
    rfl
  | ok inner =>
    obtain ⟨hm, hu⟩ := received_target hr
    rw [(run_handle_of_received hr Ledger.store s).2]
    refine run_dispatch_of_not_write ?_ s
    unfold IsWrite at h ⊢
    rwa [hm, hu]

/-- The answer and the effect of every request and every call agree, whatever the settings of the
server, its ledger and its disk.

* A request that is not answered with success changes nothing: neither the ledger nor the file nor
  the audit trail.
* A writing request that is answered with success leaves the fold of the updates that it requests.
* Every other request changes nothing.
* Nothing behind the write can take the success away: what a request asks for is answered with
  success as soon as the ledger accepts it.
* A call that does not succeed changes nothing, and one that does leaves the fold of the entries
  that count; where none is left, nothing changes. -/
theorem answer_matches_effect (i : Ingest) (s : ServerState Ledger) :
    (∀ r, let out := (i.handle r).run Ledger.store s
      (out.1.isSuccess = false → out.2 = s) ∧
      (IsWrite r → out.1.isSuccess = true →
        ∃ us, Requests i r us ∧ us.foldlM Ledger.apply s.store = .ok out.2.store) ∧
      (¬ IsWrite r → out.2 = s) ∧
      (∀ us l, Requests i r us → us.foldlM Ledger.apply s.store = .ok l →
        out.1.isSuccess = true ∧ out.2.store = l)) ∧
    (∀ c, let out := (i.call c).run Ledger.store s
      (out.1.status ≠ .ok → out.2 = s) ∧
      (out.1.status = .ok → ∃ es us, c.method = updateMethod ∧ entries c.args = .ok es ∧
        (counted es).mapM Metric.toUpdate = .ok us ∧
        us.foldlM Ledger.apply s.store = .ok out.2.store ∧ (us = [] → out.2 = s))) := by
  refine ⟨fun r => ⟨?_, ?_, fun h => run_handle_of_not_write i h s, ?_⟩, fun c => ⟨?_, ?_⟩⟩
  · intro hfails
    by_cases hw : IsWrite r
    · rcases run_handle_of_write i hw s with ⟨us, -, source, hc⟩ | ⟨-, -, hsame⟩
      · unfold Commits at hc
        split at hc
        next => rw [isSuccess_of_status hc.1] at hfails; cases hfails
        next => exact hc.2
      · exact hsame
    · exact run_handle_of_not_write i hw s
  · intro hw hsuccess
    rcases run_handle_of_write i hw s with ⟨us, hreq, source, hc⟩ | ⟨-, hstatus, -⟩
    · refine ⟨us, hreq, ?_⟩
      unfold Commits at hc
      split at hc
      next l hfold => rw [hfold, hc.2, Service.followed_store]
      next e _ =>
        have h400 := Refusal.status_ge (.fault e)
        rw [not_isSuccess_of_status (hc.1 ▸ h400)] at hsuccess
        cases hsuccess
    · rw [not_isSuccess_of_status hstatus] at hsuccess
      cases hsuccess
  · intro us l hreq hfold
    rcases run_handle_of_write i hreq.isWrite s with ⟨us', hreq', source, hc⟩ | ⟨hnone, -⟩
    · obtain rfl := hreq.unique hreq'
      unfold Commits at hc
      rw [hfold] at hc
      exact ⟨isSuccess_of_status hc.1, by rw [hc.2, Service.followed_store]⟩
    · exact absurd hreq (hnone us)
  · intro hstatus
    rcases run_call_cases i c s with ⟨-, hsame⟩ | ⟨_, _, -, -, -, hok, -⟩
    · exact hsame
    · exact absurd hok hstatus
  · intro hstatus
    rcases run_call_cases i c s with ⟨hfails, -⟩ | ⟨es, us, hm, hes, hus, -, hfold, hnil⟩
    · exact absurd hstatus hfails
    · exact ⟨es, us, hm, hes, hus, hfold, hnil⟩

/-- Five is added to a counter that nobody has written. -/
theorem answer_matches_effect_counter :
    let i : Ingest := ⟨.none, none, ⟨none, true⟩⟩
    let r : HttpRequest := ⟨"POST", ⟨none, "", "/update/counter/c/5", none⟩, [], []⟩
    let s : ServerState Ledger := ⟨.empty, ⟨.empty⟩, [[]], 0⟩
    ((i.handle r).run Ledger.store s).1.isSuccess = true ∧
      ((i.handle r).run Ledger.store s).2.store.get? .counter "c" = some (.counter 5) := by
  intro i r s
  have hname : Resource.part "kind" "counter" = .ok "counter" := by decide +kernel
  have hid : Resource.part "id" "c" = .ok "c" := by decide +kernel
  have htext : Resource.part "value" "5" = .ok "5" := by decide +kernel
  have hkind : Kind.parse "counter" = .ok .counter := by decide +kernel
  have hvalue : Value.parse .counter "5" = .ok (.counter 5) := by decide +kernel
  have hdesc : Describes i r (.updateAt "counter" "c" "5") [⟨"c", .counter 5⟩] :=
    .path hname hid htext (by decide) hkind hvalue
  have hreq : Requests i r [⟨"c", .counter 5⟩] := ⟨r, _, rfl, rfl, by decide +kernel, hdesc⟩
  have hfold : ([⟨"c", .counter 5⟩] : List Update).foldlM Ledger.apply s.store =
      .ok (Ledger.empty.applyAll [⟨"c", .counter 5⟩]).toOption.get! := by decide +kernel
  obtain ⟨hsuccess, hstore⟩ := ((answer_matches_effect i s).1 r).2.2.2 _ _ hreq hfold
  exact ⟨hsuccess, by rw [hstore]; decide +kernel⟩

end Ingest
end Metering
