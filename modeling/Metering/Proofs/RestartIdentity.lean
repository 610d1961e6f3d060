import Metering.Proofs.FileReplace
import Metering.Proofs.ServiceRuns
import Metering.Proofs.SnapshotText
import Metering.Proofs.SoundWrites

/-!
A server comes back as it was.

A ledger is saved as the records of its entries, in order, and restored by a batch over nothing.
In that batch every id is new to its table and behind all ids before it, so each update appends an
entry, and the sum of a counter is its first difference. That needs a file that can be read at all,
which is what a sound ledger is for.

Results:
1. `Ledger.foldlM_updates`: the updates of a ledger build that ledger from nothing.
2. `SnapshotFile.save_of_replaceable`, `SnapshotFile.restore_put`: a saved ledger is restored.
3. `Server.sound_of_openStore`: a file that a server starts from leaves a sound ledger.
4. `restart_identity`: whatever happened to a server since its start, its ledger survives a save
   and a restore, and the next save writes the same bytes.
-/
namespace Metering

/-! ## 1. The updates of a ledger -/

namespace Table

theorem find_eq_none {es : List (String × α)} {key : String} (h : ∀ e ∈ es, e.1 ≠ key) :
    find key es = none := by
  induction es with
  | nil => rfl
  | cons e es ih =>
    obtain ⟨hne, hes⟩ := List.forall_mem_cons.mp h
    rw [find, if_neg hne, ih hes]

theorem ext_entries {s t : Table α} (h : s.entries = t.entries) : s = t := by
  cases s
  cases t
  cases h
  rfl

end Table

namespace Ledger

/-- The ledger as updates: its gauges and then its counters. -/
def updates (l : Ledger) : List Update :=
  l.gauges.entries.map (fun e => ⟨e.1, .gauge e.2⟩) ++
    l.counters.entries.map (fun e => ⟨e.1, .counter e.2⟩)

theorem toRecords_eq (l : Ledger) : l.toRecords = l.updates.map Metric.ofUpdate := by
  unfold toRecords records updates
  rw [List.map_append, List.map_map, List.map_map]
  rfl

theorem length_updates (l : Ledger) :
    l.updates.length = l.gauges.entries.length + l.counters.entries.length := by
  rw [updates, List.length_append, List.length_map, List.length_map]

theorem Sound.updates {l : Ledger} (hl : l.Sound) : ∀ u ∈ l.updates, u.Sound := by
  intro u hu
  rcases List.mem_append.mp hu with hu | hu
  · obtain ⟨e, he, rfl⟩ := List.mem_map.mp hu
    obtain ⟨hid, hfinite⟩ := hl.gauges e he
    exact ⟨hid, hfinite⟩
  · obtain ⟨e, he, rfl⟩ := List.mem_map.mp hu
    exact ⟨hl.counters e he, rfl⟩

/-- Entries in order, behind those of a table: the first of them goes to the end. -/
theorem ordered_cons {e : String × α} {t : Table α} {es : List (String × α)}
    (h : (t.entries ++ e :: es).Pairwise fun a b => a.1 < b.1) :
    (t.put e.1 e.2).entries = t.entries ++ [e] ∧ t.get? e.1 = none ∧
      ((t.put e.1 e.2).entries ++ es).Pairwise fun a b => a.1 < b.1 := by
  have hbefore : ∀ x ∈ t.entries, x.1 < e.1 := by
    intro x hx
    exact (List.pairwise_append.mp h).2.2 x hx e List.mem_cons_self
  have hput : (t.put e.1 e.2).entries = t.entries ++ [e] := Table.putEntry_of_lt hbefore e.2
  have hnew : t.get? e.1 = none :=
    Table.find_eq_none fun x hx heq => String.lt_irrefl e.1 (heq ▸ hbefore x hx)
  refine ⟨hput, hnew, ?_⟩
  rw [hput, List.append_assoc]
  exact h

theorem foldlM_gauges {l : Ledger} {es : List (String × Binary64)}
    (h : (l.gauges.entries ++ es).Pairwise fun a b => a.1 < b.1) :
    ∃ l', (es.map fun e => (⟨e.1, .gauge e.2⟩ : Update)).foldlM apply l = .ok l' ∧
      l'.gauges.entries = l.gauges.entries ++ es ∧ l'.counters = l.counters := by
  induction es generalizing l with
  | nil => exact ⟨l, rfl, (List.append_nil _).symm, rfl⟩
  | cons e es ih =>
    obtain ⟨hput, -, hrest⟩ := ordered_cons h
    obtain ⟨l', hfold, hgauges, hcounters⟩ := ih (l := l.setGauge e.1 e.2) hrest
    refine ⟨l', hfold, ?_, hcounters⟩
    have hset : (l.setGauge e.1 e.2).gauges.entries = l.gauges.entries ++ [e] := hput
    rw [hgauges, hset, List.append_assoc]
    rfl

theorem total_of_unknown {counters : Table Int64} {id : String} (h : counters.get? id = none)
    (d : Int64) : total counters id d = .ok d := by
  have hsum : Counter.add? 0 d = some d := by
    unfold Counter.add?
    rw [Int64.toInt_zero, Int.zero_add, Counter.ofInt?_toInt]
  unfold total
  rw [h]
  dsimp only [Option.getD_none]
  rw [hsum]

theorem foldlM_counters {l : Ledger} {es : List (String × Int64)}
    (h : (l.counters.entries ++ es).Pairwise fun a b => a.1 < b.1) :
    ∃ l', (es.map fun e => (⟨e.1, .counter e.2⟩ : Update)).foldlM apply l = .ok l' ∧
      l'.counters.entries = l.counters.entries ++ es ∧ l'.gauges = l.gauges := by
  induction es generalizing l with
  | nil => exact ⟨l, rfl, (List.append_nil _).symm, rfl⟩
  | cons e es ih =>
    obtain ⟨hput, hnew, hrest⟩ := ordered_cons h
    obtain ⟨l', hfold, hcounters, hgauges⟩ :=
      ih (l := { l with counters := l.counters.put e.1 e.2 }) hrest
    refine ⟨l', ?_, ?_, hgauges⟩
    · rw [List.map_cons, List.foldlM_cons,
        Chaining.bind_of_ok (apply_counter_ok (total_of_unknown hnew e.2))]
      exact hfold
    · rw [hcounters, hput, List.append_assoc]
      rfl

/-- The updates of a ledger build it from nothing. -/
theorem foldlM_updates (l : Ledger) : l.updates.foldlM apply empty = .ok l := by
  obtain ⟨m, hm, hgauges, hcounters⟩ := foldlM_gauges (l := empty) l.gauges.ordered
  have hordered : (m.counters.entries ++ l.counters.entries).Pairwise fun a b => a.1 < b.1 := by
    rw [hcounters]
    exact l.counters.ordered
  obtain ⟨l', hl', hcounters', hgauges'⟩ := foldlM_counters hordered
  have hsame : l'.gauges = l.gauges := hgauges'.trans (Table.ext_entries hgauges)
  have hsame' : l'.counters = l.counters := by
    refine Table.ext_entries (hcounters'.trans ?_)
    rw [hcounters]
    rfl
  have heq : l' = l := by
    show (⟨l'.gauges, l'.counters⟩ : Ledger) = ⟨l.gauges, l.counters⟩
    rw [hsame, hsame']
  rw [updates, List.foldlM_append, Chaining.bind_of_ok hm, hl', heq]

/-- A batch is one call, and the fold of its updates. -/
theorem call_batch_of_ok {l l' : Ledger} {us : List Update} (h : us.foldlM apply l = .ok l') :
    store.call (.batch us) l = (.ok (), l') := by
  simp only [store, answer, applyAll_eq_foldlM, h]

theorem call_batch_of_error {l : Ledger} {us : List Update} {e : StoreFault}
    (h : us.foldlM apply l = .error e) : store.call (.batch us) l = (.error e, l) := by
  simp only [store, answer, applyAll_eq_foldlM, h]

end Ledger

/-! ## 2. Saving and restoring -/

namespace SnapshotFile

variable {file : SnapshotFile} {disk : Disk} {l : Ledger}

theorem save_of_replaceable (h : file.Replaceable disk) (l : Ledger) :
    file.save Ledger.store l disk =
      (.ok l.updates.length, l, file.put (contents l.toRecords) disk) := by
  have hlength : l.toRecords.length = l.updates.length := by
    rw [Ledger.toRecords_eq, List.length_map]
  unfold save
  rw [StoreTask.run_listing]
  dsimp only
  rw [install_of_replaceable h, ← hlength]

/-- The file of a sound ledger asks for its updates. -/
theorem updates_put (h : file.Replaceable disk) (hl : l.Sound) :
    file.updates (file.put (contents l.toRecords) disk) = .ok l.updates := by
  have hsound := hl.updates
  have hfinite : ∀ m ∈ l.updates.map Metric.ofUpdate, m.Finite := by
    intro m hm
    obtain ⟨u, hu, rfl⟩ := List.mem_map.mp hm
    exact Metric.finite_ofUpdate (hsound u hu).encodable
  have hload : file.load (file.put (contents l.toRecords) disk) =
      .ok (l.updates.map Metric.ofUpdate) := by
    unfold load
    rw [read_put h, Ledger.toRecords_eq]
    exact parse_contents file hfinite
  unfold updates
  rw [Chaining.bind_of_ok hload, Metric.mapM_toUpdate fun u hu => (hsound u hu).id_ne]
  rfl

theorem restore_put (h : file.Replaceable disk) (hl : l.Sound) :
    file.restore Ledger.store .empty (file.put (contents l.toRecords) disk) =
      (.ok l.updates.length, l) := by
  unfold restore
  rw [updates_put h hl]
  dsimp only
  rw [Ledger.call_batch_of_ok (Ledger.foldlM_updates l)]

/-! ## 3. Starting -/

theorem sound_of_updates {us : List Update} (h : file.updates disk = .ok us) :
    ∀ u ∈ us, u.Sound := by
  obtain ⟨ms, hload, h⟩ := Chaining.ok_of_bind h
  have hfinite : ∀ m ∈ ms, m.Finite := by
    have hparse : ∀ {data}, file.parse data = .ok ms → ∀ m ∈ ms, m.Finite := by
      intro data hparse
      unfold parse at hparse
      split at hparse
      next =>
        obtain rfl := Except.ok.inj hparse
        exact fun m hm => absurd hm List.not_mem_nil
      next =>
        split at hparse
        next hdecode =>
          obtain rfl := Except.ok.inj hparse
          exact Metric.finite_of_decodeList hdecode
        next => cases hparse
    unfold load at hload
    split at hload
    next => exact hparse hload
    next =>
      obtain rfl := Except.ok.inj hload
      exact fun m hm => absurd hm List.not_mem_nil
    next => cases hload
  split at h
  next hus =>
    obtain rfl := Except.ok.inj h
    exact Metric.sound_of_mapM_toUpdate hfinite hus
  next => cases h

theorem sound_restore {n : Nat} (h : file.restore Ledger.store .empty disk = (.ok n, l)) :
    l.Sound := by
  unfold restore at h
  split at h
  next => cases h
  next us hus =>
    cases hfold : us.foldlM Ledger.apply .empty with
    | error e =>
      rw [Ledger.call_batch_of_error hfold] at h
      cases h
    | ok m =>
      rw [Ledger.call_batch_of_ok hfold] at h
      obtain rfl : m = l := (Prod.mk.inj h).2
      exact Ledger.sound_foldlM Ledger.sound_empty (sound_of_updates hus) hfold

end SnapshotFile

namespace Server

/-- A server starts with a sound ledger, or not at all. -/
theorem sound_of_openStore {s : ServerSettings} {disk : Disk} {l : Ledger}
    (h : openStore s disk = .ok l) : l.Sound := by
  unfold openStore at h
  split at h
  next => cases h
  next file _ _ =>
    split at h
    next =>
      split at h
      next hrestore =>
        obtain rfl := Except.ok.inj h
        exact SnapshotFile.sound_restore hrestore
      next => cases h
    next =>
      obtain rfl := Except.ok.inj h
      exact Ledger.sound_empty
  next =>
    obtain rfl := Except.ok.inj h
    exact Ledger.sound_empty

theorem sound_of_start {s : ServerSettings} {audits : Bool} {disk : Disk} {server : Server}
    {l : Ledger} (h : start s audits disk = .ok (server, l)) : l.Sound := by
  obtain ⟨m, hopen, h⟩ := Chaining.ok_of_bind h
  obtain ⟨keys, -, hpure⟩ := Chaining.ok_of_bind h
  obtain ⟨-, rfl⟩ := Prod.mk.inj (Except.ok.inj hpure)
  cases hm : openStore s disk with
  | error e =>
    rw [hm] at hopen
    cases hopen
  | ok l =>
    rw [hm] at hopen
    obtain rfl := Except.ok.inj hopen
    exact sound_of_openStore hm

end Server

/-! ## 4. Any course of events -/

/-- A server is started from any disk, with any settings that let it start, and then anything
happens to it: requests of any form, calls that came out of any texts, saves of the clock, with
their steps interleaved in any order, and the end of its service. At every point the ledger `l`
that has been reached is sound: no id is empty and every gauge is finite. Let a snapshot file be
at any path where a file can be replaced. Then

* saving `l` there succeeds with the number of metrics of `l`, and the file holds the bytes that
  stand for `l`, which do not depend on the path or the disk;
* restoring that file into an empty ledger succeeds with the same number and gives `l` again, every
  gauge bit for bit and every counter;
* saving the restored ledger succeeds, and the disk stays as it is, byte for byte. -/
theorem restart_identity {settings : ServerSettings} {audits : Bool} {disk : Disk}
    {server : Server} {start : Ledger}
    (hstart : Server.start settings audits disk = .ok (server, start)) (inboxes : Inboxes)
    (time : Int64) (moves : List ServingMove)
    (hcalls : ∀ c, .call c ∈ moves → ∃ message, RpcCall.decode message = .ok c) :
    let l := ((Serving.begin server ⟨start, disk, inboxes, time⟩).run Ledger.store
      moves).pool.state.store
    let count := l.gauges.entries.length + l.counters.entries.length
    l.Sound ∧ ∃ bytes, ∀ (file : SnapshotFile) (place : Disk), file.Replaceable place →
      ∃ saved, file.save Ledger.store l place = (.ok count, l, saved) ∧
        saved.read file.path = .ok bytes ∧
        file.restore Ledger.store .empty saved = (.ok count, l) ∧
        file.save Ledger.store (file.restore Ledger.store .empty saved).2 saved =
          (.ok count, l, saved) := by
  intro l count
  have hl : l.Sound :=
    (Serving.sound_run (Serving.sound_begin server (Server.sound_of_start hstart)) moves
      hcalls).store
  refine ⟨hl, SnapshotFile.contents l.toRecords, fun file place hplace => ?_⟩
  have hcount : l.updates.length = count := l.length_updates
  have hrestore := SnapshotFile.restore_put hplace hl
  rw [hcount] at hrestore
  refine ⟨file.put (SnapshotFile.contents l.toRecords) place, ?_, ?_, hrestore, ?_⟩
  · rw [← hcount]
    exact SnapshotFile.save_of_replaceable hplace l
  · exact SnapshotFile.read_put hplace _
  · rw [hrestore, ← hcount, SnapshotFile.save_of_replaceable (SnapshotFile.replaceable_put hplace _),
      SnapshotFile.put_put]

/-- A server that starts from a file with a negative zero, and that takes the smallest gauge by a
path and a counter of zero by a call, comes back with all three. -/
theorem restart_identity_smallest :
    let file : SnapshotFile := ⟨"db.json"⟩
    let settings : ServerSettings := { ServerSettings.standard with file := some file.path }
    let zero : Binary64 := Binary64.zero.negate
    let smallest : Binary64 := .ofRank false 1
    let disk := file.put (SnapshotFile.contents [Metric.ofUpdate ⟨"g", .gauge zero⟩])
      (Disk.withFolder ".")
    let request : HttpRequest := ⟨"POST", ⟨none, "", "/update/gauge/h/5e-324", none⟩, [], []⟩
    let message := RpcCall.encode ⟨1, Ingest.updateMethod,
      .object [("metrics", Metric.listToJson [Metric.ofUpdate ⟨"c", .counter 0⟩])], []⟩
    let calls := ((RpcCall.decode message).toOption.map ServingMove.call).toList
    let moves := .request request :: calls ++ [.turn 1, .turn 0]
    let l : Ledger := ⟨.ofList [("g", zero), ("h", smallest)], .ofList [("c", 0)]⟩
    ∃ server start, Server.start settings false disk = .ok (server, start) ∧
      ((Serving.begin server ⟨start, disk, [], 0⟩).run Ledger.store moves).pool.state.store = l ∧
      ∃ saved, (file.save Ledger.store l disk).2.2 = saved ∧ saved ≠ disk ∧
        file.restore Ledger.store .empty saved = (.ok 3, l) := by
  intro file settings zero smallest disk request message calls moves l
  have hreached : (Server.start settings false disk).toOption.map (fun r =>
      ((Serving.begin r.1 ⟨r.2, disk, [], 0⟩).run Ledger.store moves).pool.state.store) =
      some l := by decide +kernel
  have hplace : file.Replaceable disk := ⟨by decide +kernel, by decide +kernel⟩
  have hcount : l.gauges.entries.length + l.counters.entries.length = 3 := by decide +kernel
  have hsaved : (file.save Ledger.store l disk).2.2 ≠ disk := by decide +kernel
  clear_value message l disk
  have hcalls : ∀ c, .call c ∈ moves → ∃ message, RpcCall.decode message = .ok c := by
    intro c hc
    have hdecode : (RpcCall.decode message).toOption = some c := by
      simpa [moves, calls] using hc
    exact ⟨message, Chaining.ok_of_toOption hdecode⟩
  clear_value moves
  obtain ⟨⟨server, start⟩, hstart, hl⟩ := Option.map_eq_some_iff.mp hreached
  have hstart : Server.start settings false disk = .ok (server, start) :=
    Chaining.ok_of_toOption hstart
  obtain ⟨-, bytes, h⟩ := restart_identity hstart [] 0 moves hcalls
  obtain ⟨saved, hsave, -, hrestore, -⟩ := h file disk hplace
  rw [hl, hcount] at hrestore
  rw [hl] at hsave
  rw [hsave] at hsaved
  exact ⟨server, start, hstart, hl, saved, by rw [hsave], hsaved, hrestore⟩

end Metering
