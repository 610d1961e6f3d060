import Metering.Ingest.Calls
import Metering.Proofs.JsonYields
import Metering.Proofs.MetricText
import Metering.Proofs.ValueTexts

/-!
Updates that come out of texts can go into a file.

A reading that is not finite has no form in JSON, and a record without an id is refused when a
file is read. So one such update would be the end of the next start, and there are several ways in:
a path, a record, a list of records and a call. Each of them is closed by checks of its own.

Results:
1. `Ingest.sound_of_updateOfParts`: the update that a path spells is sound.
2. `Metric.finite_of_decode`, `Metric.finite_of_decodeList`: readings out of a text are finite.
3. `Ingest.finite_of_entries`: so are those in the arguments of a call.
4. `Metric.sound_of_mapM_toUpdate`: records of finite readings stand for sound updates.
-/
namespace Metering

/-- An update that a file can hold: its id is not empty, and its reading is finite. -/
structure Update.Sound (u : Update) : Prop where
  id_ne : u.id ≠ ""
  encodable : u.value.isEncodable = true

/-! ## 1. Paths -/

namespace Ingest

theorem sound_of_updateOfParts {kind id value : String} {u : Update}
    (h : updateOfParts kind id value = .ok u) : u.Sound := by
  unfold updateOfParts at h
  split at h
  next => cases h
  next hid =>
    obtain ⟨k, -, h⟩ := Chaining.ok_of_bind h
    obtain ⟨v, hv, hpure⟩ := Chaining.ok_of_bind h
    obtain rfl := Except.ok.inj hpure
    exact ⟨hid, Value.isEncodable_of_parse hv⟩

end Ingest

/-! ## 2. Records -/

namespace Metric

open JsonReader

/-- The reading of a draft is finite, if it has one. -/
def Draft.Finite (d : Draft) : Prop := ∀ o ∈ d.value, ∀ x ∈ o, x.isFinite = true

theorem Draft.finite_blank : Draft.blank.Finite := fun _ h => nomatch h

theorem finite_of_build {d : Draft} {m : Metric} (hd : d.Finite) (h : d.build = .ok m) :
    m.Finite := by
  obtain ⟨id, kind, delta, value⟩ := d
  unfold Draft.build at h
  split at h
  next => cases h
  next => cases h
  next =>
    obtain rfl := Except.ok.inj h
    intro x hx
    exact hd (some x) (Option.join_eq_some_iff.mp hx) x rfl

theorem isFinite_of_acceptReading {n : JsonNumber} {x : Binary64} (hn : Writable n)
    (h : acceptReading n = .ok x) : x.isFinite = true := by
  obtain rfl := Except.ok.inj h
  exact Json.isFinite_acceptBinary hn

theorem yields_reader : Yields reader Metric.Finite := by
  refine yields_record (I := Draft.Finite) Draft.finite_blank (fun f hf draft hdraft => ?_)
    fun d m => finite_of_build
  simp only [shape, List.mem_cons, List.not_mem_nil, or_false] at hf
  -- Only the last field can change the reading.
  rcases hf with rfl | rfl | rfl | rfl
  · exact .after fun id => .pure hdraft
  · exact .after fun name => .pure hdraft
  · exact .after fun delta => .pure hdraft
  · refine .bind (yields_optional (yields_numberOf fun n x => isFinite_of_acceptReading))
      fun value hvalue => .pure fun o ho => ?_
    obtain rfl := Option.some.inj ho
    exact hvalue

theorem finite_of_decode {text : Bytes} {m : Metric} (h : decode text = .ok m) : m.Finite :=
  yields_reader.run h

theorem finite_of_decodeList {text : Bytes} {ms : List Metric} (h : decodeList text = .ok ms) :
    ∀ m ∈ ms, m.Finite := (yields_list yields_reader).run h

theorem finite_of_ofJson {j : Json} {m : Metric} (hj : j.Writable) (h : ofJson j = .ok m) :
    m.Finite := by
  refine JsonShape.of_record (I := Draft.Finite) Draft.finite_blank
    (fun f hf draft v draft' hdraft hv hread => ?_) (fun d m => finite_of_build) hj h
  simp only [List.mem_cons, List.not_mem_nil, or_false] at hf
  rcases hf with rfl | rfl | rfl | rfl
  · obtain ⟨id, -, hpure⟩ := Chaining.ok_of_bind hread
    obtain rfl := Except.ok.inj hpure
    exact hdraft
  · obtain ⟨name, -, hpure⟩ := Chaining.ok_of_bind hread
    obtain rfl := Except.ok.inj hpure
    exact hdraft
  · obtain ⟨delta, -, hpure⟩ := Chaining.ok_of_bind hread
    obtain rfl := Except.ok.inj hpure
    exact hdraft
  · obtain ⟨value, hvalue, hpure⟩ := Chaining.ok_of_bind hread
    obtain rfl := Except.ok.inj hpure
    intro o ho
    obtain rfl := Option.some.inj ho
    refine JsonShape.of_optional (fun x hx => ?_) hvalue
    cases hv with
    | number hn => exact isFinite_of_acceptReading hn hx
    | null => cases hx
    | bool b => cases hx
    | text s => cases hx
    | list hxs => cases hx
    | object hms => cases hx

end Metric

/-! ## 3. Calls -/

/-- The arguments of a call that was read are a document like any other. -/
theorem RpcCall.args_of_decode {P : Json → Prop}
    (hP : JsonReader.Yields (JsonReader.value (JsonReader.depthLimit - 1)) P) {message : Bytes}
    {c : RpcCall} (h : RpcCall.decode message = .ok c) : P c.args := by
  refine JsonReader.Yields.run (P := fun c => P c.args) ?_ h
  refine JsonReader.yields_record (I := fun d => ∀ j ∈ d.args, P j) (fun j hj => nomatch hj)
    (fun f hf draft hdraft => ?_) fun d c hd hbuild => ?_
  · simp only [shape, List.mem_cons, List.not_mem_nil, or_false] at hf
    rcases hf with rfl | rfl | rfl | rfl
    · exact .after fun id => .pure hdraft
    · exact .after fun method => .pure hdraft
    · refine .bind hP fun args hargs => .pure fun j hj => ?_
      obtain rfl := Option.some.inj hj
      exact hargs
    · exact .after fun entries => .pure hdraft
  · have hbuild : d.build = .ok c := hbuild
    unfold Draft.build at hbuild
    split at hbuild
    next => cases hbuild
    next => cases hbuild
    next => cases hbuild
    next hargs =>
      obtain rfl := Except.ok.inj hbuild
      exact hd _ hargs

theorem RpcCall.writable_of_decode {message : Bytes} {c : RpcCall}
    (h : RpcCall.decode message = .ok c) : c.args.Writable :=
  args_of_decode (JsonReader.yields_value _) h

namespace Ingest

theorem finite_of_entries {args : Json} {es : List (Option Metric)} (hargs : args.Writable)
    (h : entries args = .ok es) : ∀ o ∈ es, ∀ m ∈ o, m.Finite := by
  have hblank : ∀ o ∈ (none : Option (List (Option Metric))).getD [], ∀ m ∈ o, m.Finite :=
    fun o ho => absurd ho List.not_mem_nil
  refine JsonShape.of_record (P := fun es => ∀ o ∈ es, ∀ m ∈ o, m.Finite)
    (I := fun d : Option (List (Option Metric)) => ∀ o ∈ d.getD [], ∀ m ∈ o, m.Finite) hblank
    (fun f hf draft v draft' _ hv hread => ?_) (fun d es hd hbuild => ?_) hargs h
  · obtain rfl := List.mem_singleton.mp hf
    obtain ⟨items, hitems, hread⟩ := Chaining.ok_of_bind hread
    obtain ⟨found, hfound, hpure⟩ := Chaining.ok_of_bind hread
    obtain rfl := Except.ok.inj hpure
    intro o ho
    obtain ⟨j, hj, hentry⟩ := Chaining.ok_of_mapM hfound o ho
    cases hv with
    | list hxs =>
      obtain rfl := Except.ok.inj hitems
      exact JsonShape.of_optional (fun m => Metric.finite_of_ofJson (hxs j hj)) hentry
    | null => cases hitems
    | bool b => cases hitems
    | number hn => cases hitems
    | text s => cases hitems
    | object hms => cases hitems
  · obtain rfl := Except.ok.inj hbuild
    exact hd

end Ingest

/-! ## 4. Updates -/

namespace Metric

theorem sound_of_toUpdate {m : Metric} {u : Update} (hm : m.Finite) (h : m.toUpdate = .ok u) :
    u.Sound := by
  obtain ⟨hid, -, hne⟩ := toUpdate_eq_ok h
  refine ⟨hid ▸ hne, ?_⟩
  unfold toUpdate at h
  split at h
  next => cases h
  next =>
    split at h
    next =>
      split at h
      next x hx =>
        obtain rfl := Except.ok.inj h
        exact hm x hx
      next => cases h
    next =>
      split at h
      next =>
        obtain rfl := Except.ok.inj h
        rfl
      next => cases h

theorem sound_of_mapM_toUpdate {ms : List Metric} {us : List Update} (hms : ∀ m ∈ ms, m.Finite)
    (h : ms.mapM toUpdate = .ok us) : ∀ u ∈ us, u.Sound := by
  intro u hu
  obtain ⟨m, hm, hmu⟩ := Chaining.ok_of_mapM h u hu
  exact sound_of_toUpdate (hms m hm) hmu

end Metric
end Metering
