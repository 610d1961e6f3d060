import Metering.Proofs.SaveOrder
import Metering.Proofs.ServingCourse
import Metering.Proofs.WriteDialogues

/-!
What a server leaves behind when it stops.

The last save starts when no other task is under way, and nothing starts after it. So the ledger
that it reads is the final one, and it holds every write that was acknowledged, whichever way it
came. Its export is what the file holds in the end, unless the client of an earlier save went away
while the write of that save was under way. Such a write belongs to nobody, nobody waits for it,
and if it lands last the file goes back to what it holds (`stale_write_after_last_save`).

Results:
1. `SaveStage`, `SaveStage.succ`: where a save can be; one that reports success has replaced the
   file, and it asks the ledger for nothing after it has read the counters.
2. `Closing.content`: what the file holds after a save that is alone.
3. `last_save_holds_everything`: all of this for a server that is started and stopped.
-/
namespace Metering

open ServerTask ServerPool

/-! ## 1. A single save -/

/-- The call takes the counters. -/
def StoreEvent.isCounters : StoreEvent → Bool
  | ⟨.counters, _⟩ => true
  | _ => false

namespace ServerPool

section
variable {start : ServerPool α Ledger} {moves : List (PoolMove α)} {n₀ k n : Nat}
  {file : SnapshotFile} {f : Except StoreFault Nat → α}

/-- A success means that a write of the task has replaced the file. -/
def Earned (start : ServerPool α Ledger) (moves : List (PoolMove α)) (k n : Nat)
    (r : Except StoreFault Nat) : Prop :=
  ∀ count, r = .ok count → ∃ l w, l < n ∧ w.owner = k ∧ start.InstallsAt moves l w

/-- Where a task can be that saves and then ends, before and after it has read the counters. -/
inductive SaveStage (start : ServerPool α Ledger) (moves : List (PoolMove α)) (k : Nat)
    (file : SnapshotFile) (f : Except StoreFault Nat → α) (n : Nat) : Bool → PoolTask α → Prop
  | entering : SaveStage start moves k file f n false
      (.running (.step .beginSave fun _ => listThen (file.handThen fun r => .done (f r))))
  | asking : SaveStage start moves k file f n false
      (.running (listThen (file.handThen fun r => .done (f r))))
  | counting (gauges : Table Binary64) : SaveStage start moves k file f n false
      (.running (countThen gauges (file.handThen fun r => .done (f r))))
  | handing (ms : List Metric) : SaveStage start moves k file f n true
      (.running (file.handThen (fun r => .done (f r)) (.ok ms)))
  | leaving {r : Except StoreFault Nat} : start.Earned moves k n r →
      SaveStage start moves k file f n true (.running (.step .endSave fun _ => .done (f r)))
  | ended {r : Except StoreFault Nat} : start.Earned moves k n r →
      SaveStage start moves k file f n true (.running (.done (f r)))
  | cancelled (read : Bool) : SaveStage start moves k file f n read .cancelled

theorem Earned.succ {r : Except StoreFault Nat} (h : start.Earned moves k n r) :
    start.Earned moves k (n + 1) r := by
  intro count hr
  obtain ⟨l, w, hl, hw⟩ := h count hr
  exact ⟨l, w, Nat.lt_succ_of_lt hl, hw⟩

theorem SaveStage.mono {read : Bool} {t : PoolTask α}
    (h : SaveStage start moves k file f n read t) :
    SaveStage start moves k file f (n + 1) read t := by
  cases h with
  | entering => exact .entering
  | asking => exact .asking
  | counting gauges => exact .counting gauges
  | handing ms => exact .handing ms
  | leaving hearned => exact .leaving hearned.succ
  | ended hearned => exact .ended hearned.succ
  | cancelled => exact .cancelled read

/-- A write that ends well has replaced its file. -/
theorem installsAt_of_ends {m : PoolMove α} (hm : moves[n]? = some m) {i : Nat} {w : FileWrite}
    (hw : (start.before moves n).writes[i]? = some w)
    (h : (start.before moves n).Ends i w m (.ok ())) : start.InstallsAt moves n w := by
  generalize hr : Except.ok () = r at h
  cases h with
  | lands =>
    refine ⟨⟨i, hm, hw⟩, ?_⟩
    simp only [ServerStep.take] at hr
    split at hr
    next disk hdisk => exact ⟨disk, hdisk⟩
    next => cases hr
  | fails => cases hr

/-- The task asks for the gauges or the counters, and for nothing more after the counters. -/
theorem SaveStage.event {read : Bool} {t : PoolTask α}
    (h : SaveStage start moves k file f n read t)
    (ht : (start.before moves n).tasks[k]? = some t) {e : StoreEvent}
    (he : (start.before moves n).event? k = some e) :
    read = false ∧ e.accepted? = none := by
  rw [event?, ht] at he
  cases h with
  | asking =>
    obtain rfl := Option.some.inj he
    exact ⟨rfl, rfl⟩
  | counting =>
    obtain rfl := Option.some.inj he
    exact ⟨rfl, rfl⟩
  | _ => cases he

theorem SaveStage.succ {read : Bool} {m : PoolMove α} (hm : moves[n]? = some m)
    {t t' : PoolTask α} (h : SaveStage start moves k file f n read t)
    (hstep : TaskStep (start.before moves n) m k t t') :
    ∃ read', SaveStage start moves k file f (n + 1) read' t' ∧ (read = true → read' = true) := by
  cases hstep with
  | same => exact ⟨read, h.mono, id⟩
  | cancelled => exact ⟨read, .cancelled read, id⟩
  | @answered _ _ _ outcome htask hanswers =>
    cases h with
    | entering =>
      cases htask
      exact ⟨false, .asking, id⟩
    | asking =>
      cases htask
      obtain ⟨rfl, rfl⟩ := hanswers
      exact ⟨false, .counting _, id⟩
    | counting gauges =>
      cases htask
      obtain ⟨rfl, rfl⟩ := hanswers
      exact ⟨true, .handing _, fun _ => rfl⟩
    | handing ms =>
      cases htask
      obtain ⟨i, w, hw, hown, hends⟩ := hanswers
      refine ⟨true, .leaving fun count hr => ?_, id⟩
      cases outcome with
      | error e => cases hr
      | ok => exact ⟨n, w, Nat.lt_succ_self n, hown, installsAt_of_ends hm hw hends⟩
    | leaving hearned =>
      cases htask
      exact ⟨true, .ended hearned.succ, id⟩
    | ended => cases htask
    | cancelled => cases htask

/-- At every point after its start. -/
theorem saveStage_at (hstart : start.StartsAt moves n₀ k (file.saveTask.map f)) (hn : n₀ < n) :
    ∃ t, (start.before moves n).tasks[k]? = some t ∧
      ∃ read, SaveStage start moves k file f n read t := by
  rw [ServerTask.map, SnapshotFile.saveTask_andThen] at hstart
  refine stage_of_le (fun n t => ∃ read, SaveStage start moves k file f n read t)
    (task_of_startsAt hstart) ⟨false, .entering⟩ ?_ ?_ hn
  · rintro n t ⟨read, h⟩
    exact ⟨read, h.mono⟩
  · rintro n m t t' - hm - ⟨read, h⟩ hstep
    obtain ⟨read', h', -⟩ := h.succ hm hstep
    exact ⟨read', h'⟩

/-- Once it has read the counters, the task asks the ledger for nothing. -/
theorem not_eventAt_of_counters (hstart : start.StartsAt moves n₀ k (file.saveTask.map f))
    {c p : Nat} {answer : Except StoreFault (Table Int64)} {e : StoreEvent}
    (hcounters : start.EventAt moves c k ⟨.counters, answer⟩) (hlt : c < p) :
    ¬ start.EventAt moves p k e := by
  intro he
  obtain ⟨t, ht, read, hstage⟩ := saveStage_at hstart (lt_of_eventAt hstart hcounters)
  obtain ⟨t', ht', hread⟩ : ∃ t', (start.before moves (c + 1)).tasks[k]? = some t' ∧
      SaveStage start moves k file f (c + 1) true t' := by
    have hafter : start.before moves (c + 1) = (start.before moves c).turn Ledger.store k :=
      before_succ hcounters.1
    have hevent := hcounters.2
    rw [event?, ht] at hevent
    cases hstage with
    | asking => cases congrArg (Option.map StoreEvent.isCounters) hevent
    | counting gauges =>
      rw [hafter, turn_store ht]
      exact ⟨_, List.getElem?_set_self (List.getElem?_eq_some_iff.mp ht).1, .handing _⟩
    | _ => cases hevent
  obtain ⟨u, hu, hlate⟩ := stage_of_le (fun n t => SaveStage start moves k file f n true t) ht'
    hread (fun n t => SaveStage.mono)
    (fun n m t t' _ hm _ hstage hstep => by
      obtain ⟨read', h', htrue⟩ := hstage.succ hm hstep
      exact htrue rfl ▸ h') hlt
  cases (hlate.event hu he.2).1

/-- A save that is told to have worked has replaced the file. -/
theorem earned_of_answer (hstart : start.StartsAt moves n₀ k (file.saveTask.map f)) {a : α}
    (ha : (start.before moves n).answers[k]? = some (some a)) :
    ∃ r, a = f r ∧ start.Earned moves k n r := by
  rw [answers, List.getElem?_map] at ha
  obtain ⟨t, ht, ha⟩ := Option.map_eq_some_iff.mp ha
  obtain ⟨u, hu, read, hstage⟩ :=
    saveStage_at hstart (lt_of_startsAt hstart (List.getElem?_eq_some_iff.mp ht).1)
  obtain rfl := Option.some.inj (ht.symm.trans hu)
  cases hstage with
  | @ended r hearned =>
    obtain rfl := Option.some.inj ha
    exact ⟨r, rfl, hearned⟩
  | _ => cases ha

end

/-! ## 2. What the file holds in the end -/

/-- One write lands at a time. -/
theorem LandsAt.unique {start : ServerPool α Ledger} {moves : List (PoolMove α)} {n : Nat}
    {v w : FileWrite} (hv : start.LandsAt moves n v) (hw : start.LandsAt moves n w) : v = w := by
  obtain ⟨i, hi, hv⟩ := hv
  obtain ⟨j, hj, hw⟩ := hw
  obtain rfl := PoolMove.land.inj (Option.some.inj (hi.symm.trans hj))
  exact Option.some.inj (hv.symm.trans hw)

section
variable {start : ServerPool α Ledger} {moves : List (PoolMove α)} {n₀ k n : Nat}
  {task : ServerTask α}

namespace Closing

theorem length_eq (h : start.Closing moves n₀ k task) (hn : n₀ < n) :
    (start.before moves n).tasks.length = k + 1 := by
  induction n, (hn : n₀ + 1 ≤ n) using Nat.le_induction with
  | base =>
    rw [before_succ h.starts.1, ← h.starts.2]
    exact List.length_append
  | succ n hn ih =>
    cases hm : moves[n]? with
    | none => rwa [before_succ_of_none hm]
    | some m =>
      rw [before_succ hm, length_step_of_not_start _ fun other hother => h.alone n other hn ?_]
      · exact ih
      · rw [hm, hother]

/-- After the start of the last task, nobody else asks the ledger for anything. -/
theorem of_eventAt (h : start.Closing moves n₀ k task) {j : Nat} {e : StoreEvent}
    (he : start.EventAt moves n j e) (hn : n₀ ≤ n) : n₀ < n ∧ j = k := by
  have hlater : n₀ < n := by
    refine Nat.lt_of_le_of_ne hn fun heq => ?_
    subst heq
    exact nomatch h.starts.1.symm.trans he.1
  refine ⟨hlater, ?_⟩
  have hlt := lt_length_of_eventAt he
  rw [h.length_eq hlater] at hlt
  refine (Nat.lt_succ_iff_lt_or_eq.mp hlt).resolve_left fun hj => ?_
  rw [← h.starts.2] at hj
  have htask := List.getElem?_eq_getElem hj
  obtain ⟨t, ht, hended⟩ := stage_of_le (fun _ t => t.hasEnded = true) htask
    (h.ended j _ htask) (fun _ _ => id) (fun _ _ _ _ _ _ _ hended hstep => hstep.hasEnded hended) hn
  exact nomatch (event?_of_hasEnded ht hended).symm.trans he.2

end Closing
end

section
variable {start : ServerPool α Ledger} {moves : List (PoolMove α)} {n₀ k n : Nat}
  {file : SnapshotFile} {f : Except StoreFault Nat → α}
  (h : start.Closing moves n₀ k (file.saveTask.map f))
include h

namespace Closing

/-- After the start of the last save, nothing is written. -/
theorem lt_of_writesAt {j : Nat} (hwrites : start.WritesAt moves n j) : n < n₀ := by
  by_contra hn
  obtain ⟨e, he, haccepted⟩ := hwrites
  obtain ⟨hlater, rfl⟩ := h.of_eventAt he (Nat.le_of_not_lt hn)
  obtain ⟨t, ht, read, hstage⟩ := saveStage_at h.starts hlater
  rw [(hstage.event ht he.2).2] at haccepted
  cases haccepted

/-- So the ledger is the final one. -/
theorem ledgerAt_eq (hn : n₀ ≤ n) : start.ledgerAt moves n = start.ledgerAt moves n₀ :=
  store_of_quiet start moves hn fun _ hi _ _ hwrites =>
    absurd (h.lt_of_writesAt hwrites) (Nat.not_lt.mpr hi)

/-- What it reads after its start is the final ledger, by both of its calls. -/
theorem shown_eq {g c : Nat} (hg : n₀ ≤ g) (hc : n₀ ≤ c) (hn : n₀ ≤ n) :
    start.shown moves g c = (start.ledgerAt moves n).toRecords := by
  rw [shown, h.ledgerAt_eq hg, h.ledgerAt_eq hc, h.ledgerAt_eq hn]
  rfl

end Closing
end

section
variable {s : ServerState Ledger} {moves : List (PoolMove α)} {n₀ k n : Nat}
  {file : SnapshotFile} {f : Except StoreFault Nat → α}
  (h : (ofState s).Closing moves n₀ k (file.saveTask.map f))
include h

namespace Closing

/-- Nothing is read after the counters of the last save. -/
theorem le_of_gauges {save other : Export} {l l' : Nat} (hown : save.owner = k)
    (hlate : n₀ < save.gauges) (hsave : save.Installed file (ofState s) moves l)
    (hother : other.Installed file (ofState s) moves l') : other.gauges ≤ save.counters := by
  by_contra hlt
  have hcounters := hsave.1.lists.counters
  have hread := hother.1.lists.gauges
  rw [hown] at hcounters
  have hlater : save.counters < other.gauges := Nat.lt_of_not_le hlt
  have hafter : n₀ < other.gauges := (hlate.trans hsave.1.lists.order).trans hlater
  rw [(h.of_eventAt hread hafter.le).2] at hread
  exact not_eventAt_of_counters h.starts hcounters hlater hread

variable (hstarts : ∀ task, .start task ∈ moves → task.SavesWith file)
include hstarts

/-- A last save that has worked is an export that has replaced the file. -/
theorem exists_installed {count : Nat} (hearned : (ofState s).Earned moves k n (.ok count)) :
    ∃ (save : Export) (landed : Nat), save.owner = k ∧ n₀ < save.gauges ∧ landed < n ∧
      save.Installed file (ofState s) moves landed := by
  obtain ⟨l, w, hl, hown, hinstalls⟩ := hearned count rfl
  obtain ⟨save, hsave, rfl⟩ := Export.exists_installed hstarts hinstalls
  obtain rfl : save.owner = k := hown
  exact ⟨save, l, rfl, lt_of_eventAt h.starts hsave.1.lists.gauges, hl, hsave⟩

/-- What replaces the file after the last save is an older export, whose task was cancelled before
the last save read. -/
theorem left_of_later {save other : Export} {l l' : Nat} (hown : save.owner = k)
    (hlate : n₀ < save.gauges) (hsave : save.Installed file (ofState s) moves l)
    (hother : other.Installed file (ofState s) moves l') (hlt : l < l') :
    other.counters < save.gauges ∧ other.LeftBefore moves save.gauges :=
  (hsave.order hstarts hother hlt).resolve_left fun hread =>
    absurd (h.le_of_gauges hown hlate hsave hother) (Nat.not_le.mpr hread)

/-- After the last save has replaced the file, the file holds the final ledger, or the export of an
older save whose task was cancelled. -/
theorem content {save : Export} {landed : Nat} (hown : save.owner = k) (hlate : n₀ < save.gauges)
    (hsave : save.Installed file (ofState s) moves landed) (hlanded : landed < n) :
    let Holds (ms : List Metric) := ((ofState s).before moves n).state.disk.nodes.get? file.path =
      some (.file (SnapshotFile.contents ms))
    Holds ((ofState s).ledgerAt moves n).toRecords ∨
    ∃ (older : Export) (later : Nat), landed < later ∧ later < n ∧
      older.Installed file (ofState s) moves later ∧ older.counters < save.gauges ∧
      older.LeftBefore moves save.gauges ∧
      Holds ((ofState s).shown moves older.gauges older.counters) := by
  intro Holds
  have hfile (l : Nat) (w : FileWrite) (hw : (ofState s).InstallsAt moves l w) : w.file = file := by
    obtain ⟨v, -, rfl⟩ := Export.exists_installed hstarts hw
    rfl
  rcases current_at hfile n with ⟨hunset, -⟩ | ⟨last, w, hlast, hinstalls, hnone, hcontent⟩
  · exact absurd hsave.2 (hunset landed hlanded _)
  · obtain ⟨v, hv, rfl⟩ := Export.exists_installed hstarts hinstalls
    rcases Nat.lt_trichotomy landed last with hlt | rfl | hgt
    · obtain ⟨hread, hleft⟩ := h.left_of_later hstarts hown hlate hsave hv hlt
      exact .inr ⟨v, last, hlt, hlast, hv, hread, hleft, hcontent⟩
    · have hcounters : n₀ < save.counters := hlate.trans hsave.1.lists.order
      have hn : n₀ < n := hcounters.trans ((hsave.1.order.trans hsave.1.before).trans hlanded)
      refine .inl (hcontent.trans ?_)
      rw [← hsave.2.1.unique hinstalls.1, Export.write, h.shown_eq hlate.le hcounters.le hn.le]
    · exact absurd hsave.2 (hnone landed _ hgt hlanded)

end Closing
end
end ServerPool

/-! ## 3. A server -/

/-- A server that has this snapshot file, and saves nowhere else. -/
structure Server.SavesOnly (server : Server) (file : SnapshotFile) : Prop where
  ending : server.file = some file
  writes : ∀ f, server.ingest.service.savesTo = some f → f = file

theorem Server.savesOnly_of_start {settings : ServerSettings} {audits : Bool} {disk : Disk}
    {server : Server} {l : Ledger} (h : start settings audits disk = .ok (server, l))
    {path : String} (hpath : settings.file = some path) : server.SavesOnly ⟨path⟩ := by
  obtain ⟨m, -, h⟩ := Chaining.ok_of_bind h
  obtain ⟨keys, -, hpure⟩ := Chaining.ok_of_bind h
  obtain ⟨rfl, -⟩ := Prod.mk.inj (Except.ok.inj hpure)
  have hfile : snapshotFile settings = some ⟨path⟩ := by
    rw [snapshotFile, hpath]
    rfl
  refine ⟨hfile, fun f hf => ?_⟩
  dsimp only at hf
  split at hf
  next => exact Option.some.inj (hf.symm.trans hfile)
  next => cases hf

theorem Server.SavesOnly.finalSave_map {server : Server} {file : SnapshotFile}
    (h : server.SavesOnly file) : server.finalSave.map ServingAnswer.saved =
      file.saveTask.map fun r => .saved (r.map fun _ => ()) := by
  rw [finalSave, h.ending]
  exact map_map _ _ _

namespace Serving

/-- Everything that a server does with the file is to save to it as a whole. -/
theorem savesWith_of_poolMove? {v : Serving σ} {file : SnapshotFile} (h : v.server.SavesOnly file)
    {m : ServingMove} {task : ServerTask ServingAnswer}
    (hm : v.poolMove? m = some (.start task)) : task.SavesWith file := by
  have hfinal : (v.server.finalSave.map ServingAnswer.saved).SavesWith file := by
    rw [h.finalSave_map]
    exact savesWith_saveTask file _
  have htaken {p : Prop} [Decidable p] {t : ServerTask ServingAnswer}
      (ht : (if p then some (PoolMove.start t) else none) = some (.start task)) : t = task :=
    PoolMove.start.inj (Option.some.inj (Option.ite_none_right_eq_some.mp ht).2)
  cases m with
  | request r =>
    obtain rfl := htaken hm
    exact ((Ingest.dialogue_handle v.server.ingest r).savesWith h.writes).map _
  | call c =>
    obtain rfl := htaken hm
    exact ((Ingest.dialogue_call v.server.ingest c).savesWith h.writes).map _
  | tick =>
    obtain rfl := htaken hm
    unfold clockSave
    split
    next => exact .done _
    next => exact hfinal
  | next =>
    obtain rfl := htaken hm
    exact hfinal
  | leave k =>
    obtain ⟨-, htask⟩ := Option.ite_none_right_eq_some.mp hm
    cases htask
  | turn k => cases hm
  | land i => cases hm
  | fail i fault => cases hm

theorem savesWith_of_mem_course {v : Serving σ} {file : SnapshotFile}
    (h : v.server.SavesOnly file) (store : Store σ) {moves : List ServingMove} :
    ∀ task, .start task ∈ v.course store moves → task.SavesWith file := by
  induction moves generalizing v with
  | nil => exact fun _ hm => nomatch hm
  | cons m moves ih =>
    intro task hm
    rcases List.mem_append.mp hm with hm | hm
    · exact savesWith_of_poolMove? h (Option.mem_toList.mp hm)
    · exact ih ((served store v m).server ▸ h) task hm

section
variable {start : ServerPool ServingAnswer Ledger} {moves : List (PoolMove ServingAnswer)}
  {i : Ingest} {n₀ k n : Nat}

/-- A request to write that is answered with success has been written before. -/
theorem accepted_of_response {r : HttpRequest} {a : HttpResponse}
    (hstart : start.StartsAt moves n₀ k ((i.handle r).map .response)) (hwrite : Ingest.IsWrite r)
    (ha : (start.before moves n).answers[k]? = some (some (.response a)))
    (hsuccess : a.isSuccess = true) :
    ∃ us, Ingest.Requests i r us ∧ ∃ p, n₀ < p ∧ p < n ∧ start.AcceptsAt moves p k us := by
  have hdialogue : Dialogue i.service (Ingest.source r) (Ingest.Requests i r)
      (fun b => ∃ a, b = ServingAnswer.response a ∧ Ingest.IsWrite r ∧ a.isSuccess = true)
      ((i.handle r).map .response) := by
    refine .map ((Ingest.dialogue_handle i r).mono (fun _ => id) fun a => ?_)
    refine ⟨?_, fun hacks => ⟨a, rfl, hacks⟩⟩
    rintro ⟨b, hb, hacks⟩
    exact ServingAnswer.response.inj hb ▸ hacks
  exact accepted_of_answer hstart hdialogue.owes ⟨a, rfl, hwrite, hsuccess⟩ ha

/-- A call that is answered with success has been written before, or asks for nothing. -/
theorem accepted_of_reply {c : RpcCall} {a : RpcReply}
    (hstart : start.StartsAt moves n₀ k ((i.call c).map .reply))
    (ha : (start.before moves n).answers[k]? = some (some (.reply a)))
    (hsuccess : a.isSuccess = true) (hasks : ¬ Ingest.Asks c []) :
    ∃ us, Ingest.Asks c us ∧ ∃ p, n₀ < p ∧ p < n ∧ start.AcceptsAt moves p k us := by
  have hdialogue : Dialogue i.service c.realIp (Ingest.Asks c)
      (fun b => ∃ a, b = ServingAnswer.reply a ∧ a.isSuccess = true ∧ ¬ Ingest.Asks c [])
      ((i.call c).map .reply) := by
    refine .map ((Ingest.dialogue_call i c).mono (fun _ => id) fun a => ?_)
    refine ⟨?_, fun hacks => ⟨a, rfl, hacks⟩⟩
    rintro ⟨b, hb, hacks⟩
    exact ServingAnswer.reply.inj hb ▸ hacks
  exact accepted_of_answer hstart hdialogue.owes ⟨a, rfl, hsuccess, hasks⟩ ha

end
end Serving

/-- An answer that can be told to be a success of a request is one. -/
theorem ServerPool.response_of_any {pool : ServerPool ServingAnswer Ledger} {k : Nat}
    (h : (pool.answers[k]?.join.any fun a =>
      match a with | .response a => a.isSuccess | _ => false) = true) :
    ∃ a, pool.answers[k]? = some (some (.response a)) ∧ a.isSuccess = true := by
  obtain ⟨answer, hjoin, hsuccess⟩ := (Option.any_eq_true _ _).mp h
  cases answer with
  | response a => exact ⟨a, Option.join_eq_some_iff.mp hjoin, hsuccess⟩
  | reply a => cases hsuccess
  | saved r => cases hsuccess

/-- If nobody is cancelled while his write is under way, the task of an export has not been. -/
theorem Export.Installed.not_leftBefore {start : ServerPool α Ledger} {moves : List (PoolMove α)}
    {file : SnapshotFile} {v : Export} {n point : Nat} (h : v.Installed file start moves n)
    (hstay : ∀ n k, moves[n]? = some (.cancel k) → ¬ (start.before moves n).HasWrite k)
    (hle : point ≤ n) : ¬ v.LeftBefore moves point := by
  rintro ⟨p, hp, hlt, hcancel⟩
  exact hstay p v.owner hcancel ⟨_, h.1.waits p hp (hlt.le.trans hle), rfl⟩

/-- A server with a snapshot file is started, anything happens to it in any order, and it has
returned with a last save that succeeded. Then, with the point and the place where the last save
started:

* a request to write that is answered with success, and a call that is answered with success and
  asks for anything, has been accepted by the ledger as a whole, after its own start and before the
  last save started;
* what is accepted in one write stands together among all that is accepted;
* the ledger accepts nothing after the last save has started, and in the end it is the fold of all
  that was accepted;
* the last save has replaced the file with the export of this ledger, read after its start;
* the file holds that export, unless the task of an older save was cancelled while its write was
  under way, and the write has landed later: then the file holds what the older save had read;
* so if nobody goes away while his write is under way, the file holds the whole ledger. -/
theorem last_save_holds_everything {settings : ServerSettings} {audits : Bool} {disk : Disk}
    {server : Server} {l : Ledger} {path : String}
    (hserver : Server.start settings audits disk = .ok (server, l))
    (hpath : settings.file = some path) (inboxes : Inboxes) (time : Int64)
    (moves : List ServingMove) :
    let s : ServerState Ledger := ⟨l, disk, inboxes, time⟩
    let start : ServerPool ServingAnswer Ledger := .ofState s
    let course := (Serving.begin server s).course Ledger.store moves
    let after := (Serving.begin server s).run Ledger.store moves
    let file : SnapshotFile := ⟨path⟩
    let content := after.pool.state.disk.nodes.get? path
    let whole := after.pool.state.store.toRecords
    let Holds (ms : List Metric) := content = some (.file (SnapshotFile.contents ms))
    after.phase = .returned → after.pool.answers.getLast? = some (some (.saved (.ok ()))) →
    after.pool = start.run Ledger.store course ∧
    ∃ n₀ k, start.StartsAt course n₀ k (server.finalSave.map .saved) ∧
      (∀ n j r a, start.StartsAt course n j ((server.ingest.handle r).map .response) →
        Ingest.IsWrite r → after.pool.answers[j]? = some (some (.response a)) →
        a.isSuccess = true → ∃ us, Ingest.Requests server.ingest r us ∧
          ∃ p, n < p ∧ p < n₀ ∧ start.AcceptsAt course p j us) ∧
      (∀ n j c a, start.StartsAt course n j ((server.ingest.call c).map .reply) →
        after.pool.answers[j]? = some (some (.reply a)) → a.isSuccess = true →
        ∃ us, Ingest.Asks c us ∧
          (us = [] ∨ ∃ p, n < p ∧ p < n₀ ∧ start.AcceptsAt course p j us)) ∧
      (∀ p j us, start.AcceptsAt course p j us →
        ∃ earlier later, start.written course = earlier ++ us ++ later) ∧
      (∀ p j, start.WritesAt course p j → p < n₀) ∧
      (start.written course).foldlM Ledger.apply l = .ok after.pool.state.store ∧
      ∃ (save : Export) (landed : Nat), save.owner = k ∧ n₀ < save.gauges ∧
        save.Installed file start course landed ∧
        save.write file start course = ⟨k, file, whole⟩ ∧
        (Holds whole ∨ ∃ (older : Export) (later : Nat), landed < later ∧
          older.Installed file start course later ∧ older.counters < save.gauges ∧
          older.LeftBefore course save.gauges ∧
          Holds (start.shown course older.gauges older.counters)) ∧
        ((∀ n j, course[n]? = some (.cancel j) → ¬ (start.before course n).HasWrite j) →
          Holds whole) := by
  intro s start course after file content whole Holds hreturned hanswer
  have hsaves : server.SavesOnly file := Server.savesOnly_of_start hserver hpath
  have hstarts : ∀ task, .start task ∈ course → task.SavesWith file :=
    Serving.savesWith_of_mem_course hsaves Ledger.store
  have hpool : after.pool = start.run Ledger.store course := Serving.pool_run Ledger.store _ moves
  have hend : start.before course course.length = after.pool := before_length.trans hpool.symm
  obtain ⟨n₀, k, hclosing⟩ : ∃ n₀ k, start.Closing course n₀ k (server.finalSave.map .saved) :=
    Serving.exists_closing server s (show 4 ≤ after.phase.rank by rw [hreturned]; decide)
  have hlast := hclosing.starts
  rw [hsaves.finalSave_map] at hclosing
  -- The last answer is the one of the last save.
  have hlt : n₀ < course.length := (List.getElem?_eq_some_iff.mp hlast.1).1
  have hlength : after.pool.answers.length = k + 1 := by
    rw [ServerPool.answers, List.length_map, ← hend]
    exact hclosing.length_eq hlt
  rw [List.getLast?_eq_getElem?, hlength, Nat.add_sub_cancel, ← hend] at hanswer
  obtain ⟨r, hr, hearned⟩ := earned_of_answer hclosing.starts hanswer
  obtain ⟨count, rfl⟩ : ∃ count, r = .ok count := by
    cases r with
    | ok count => exact ⟨count, rfl⟩
    | error e => cases hr
  obtain ⟨save, landed, hown, hlate, hlanded, hsave⟩ := hclosing.exists_installed hstarts hearned
  have hcounters : n₀ < save.counters := hlate.trans hsave.1.lists.order
  have hwhole : start.shown course save.gauges save.counters = whole := by
    rw [hclosing.shown_eq hlate.le hcounters.le hlt.le, ledgerAt, hend]
  have hcontent := hclosing.content hstarts hown hlate hsave hlanded
  rw [hend, ledgerAt, hend] at hcontent
  have hbefore {p j : Nat} {us : List Update} (h : start.AcceptsAt course p j us) : p < n₀ :=
    hclosing.lt_of_writesAt h.writesAt
  refine ⟨hpool, n₀, k, hlast, ?_, ?_, fun p j us => AcceptsAt.exists_written,
    fun p j => hclosing.lt_of_writesAt, ?_, save, landed, hown, hlate, hsave, ?_, ?_, ?_⟩
  · intro n j r a hstart hwrite ha hsuccess
    rw [← hend] at ha
    obtain ⟨us, hus, p, hp, -, haccepts⟩ := Serving.accepted_of_response hstart hwrite ha hsuccess
    exact ⟨us, hus, p, hp, hbefore haccepts, haccepts⟩
  · intro n j c a hstart ha hsuccess
    rw [← hend] at ha
    by_cases hnone : Ingest.Asks c []
    · exact ⟨[], hnone, .inl rfl⟩
    · obtain ⟨us, hus, p, hp, -, haccepts⟩ := Serving.accepted_of_reply hstart ha hsuccess hnone
      exact ⟨us, hus, .inr ⟨p, hp, hbefore haccepts, haccepts⟩⟩
  · rw [hpool]
    exact foldlM_written start course
  · rw [Export.write, hown, hwhole]
  · rcases hcontent with hholds | ⟨older, later, hlater, -, holder, hread, hleft, hholds⟩
    · exact .inl hholds
    · exact .inr ⟨older, later, hlater, holder, hread, hleft, hholds⟩
  · intro hstay
    rcases hcontent with hholds | ⟨older, later, hlater, -, holder, -, hleft, -⟩
    · exact hholds
    · have hle : save.gauges ≤ later :=
        ((hsave.1.read_lt_handed.trans hsave.1.before).trans hlater).le
      exact absurd hleft (holder.not_leftBefore hstay hle)

/-- A request and a call count the same counter up while the clock saves, and the server is told to
stop in the meantime. Both are acknowledged, and the file holds the sum. -/
theorem last_save_holds_everything_mixed :
    let settings : ServerSettings := { ServerSettings.standard with file := some "metrics.json" }
    let disk := Disk.withFolder "."
    let request : HttpRequest := ⟨"POST", ⟨none, "", "/update/counter/c/1", none⟩, [], []⟩
    let call : RpcCall := ⟨1, Ingest.updateMethod,
      .object [("metrics", Metric.listToJson [Metric.ofUpdate ⟨"c", .counter 2⟩])], []⟩
    let moves : List ServingMove :=
      [.request request, .call call, .tick, .turn 2, .turn 0, .next, .turn 2, .turn 1, .turn 2,
        .turn 2, .next, .next, .land 0, .turn 2, .next, .turn 3, .turn 3, .turn 3, .turn 3, .land 0,
        .turn 3, .next]
    ∃ server l, Server.start settings false disk = .ok (server, l) ∧
      let begun := Serving.begin server ⟨l, disk, [], 0⟩
      let after := begun.run Ledger.store moves
      after.phase = .returned ∧ after.pool.answers.getLast? = some (some (.saved (.ok ()))) ∧
      (∃ us, Ingest.Requests server.ingest request us ∧
        ∃ p, begun.pool.AcceptsAt (begun.course Ledger.store moves) p 0 us) ∧
      after.pool.state.disk.nodes.get? "metrics.json" =
        some (.file (SnapshotFile.contents [Metric.ofUpdate ⟨"c", .counter 3⟩])) := by
  intro settings disk request call moves
  have hreached : (Server.start settings false disk).toOption.map (fun r =>
      let after := (Serving.begin r.1 ⟨r.2, disk, [], 0⟩).run Ledger.store moves
      (after.phase, after.pool.state.store.toRecords, after.pool.answers[0]?.join.any fun a =>
        match a with | .response a => a.isSuccess | _ => false)) =
      some (.returned, [Metric.ofUpdate ⟨"c", .counter 3⟩], true) := by decide +kernel
  have hlast : (Server.start settings false disk).toOption.map (fun r =>
      ((Serving.begin r.1 ⟨r.2, disk, [], 0⟩).run Ledger.store moves).pool.answers.getLast?) =
      some (some (some (.saved (.ok ())))) := by cbv
  have hwrite : Ingest.IsWrite request :=
    ⟨rfl, .updateAt "counter" "c" "1", by decide +kernel, rfl⟩
  have hnone : ∀ k, .leave k ∉ moves := by simp [moves]
  have hfirst : ∃ more, moves = .request request :: more := ⟨_, rfl⟩
  clear_value disk request moves
  obtain ⟨more, rfl⟩ := hfirst
  obtain ⟨⟨server, l⟩, hstart, hreached⟩ := Option.map_eq_some_iff.mp hreached
  rw [hstart] at hlast
  have hserver : Server.start settings false disk = .ok (server, l) := Chaining.ok_of_toOption hstart
  obtain ⟨hphase, hreached⟩ := Prod.mk.inj hreached
  obtain ⟨hstore, hsuccess⟩ := Prod.mk.inj hreached
  have hlast := Option.some.inj hlast
  obtain ⟨-, n₀, k, -, hrequests, -, -, -, -, save, landed, -, -, -, -, -, hwhole⟩ :=
    last_save_holds_everything hserver rfl [] 0 _ hphase hlast
  refine ⟨server, l, hserver, hphase, hlast, ?_, ?_⟩
  · obtain ⟨a, hanswer, hsuccess⟩ := response_of_any hsuccess
    obtain ⟨us, hus, p, -, -, haccepts⟩ :=
      hrequests 0 0 request a ⟨rfl, rfl⟩ hwrite hanswer hsuccess
    exact ⟨us, hus, p, haccepts⟩
  · rw [← hstore]
    exact hwhole fun n j hm => absurd (Serving.leave_mem_of_cancel (List.mem_of_getElem? hm)) (hnone j)

/-- A server that saves after every write loses an acknowledged one. The client of the first request
goes away while the write of its save is under way. The second request counts on, is saved and
answered, and the last save succeeds; then the write of the first save lands, and the server has
returned. -/
theorem stale_write_after_last_save :
    let settings : ServerSettings :=
      { ServerSettings.standard with file := some "metrics.json", saveInterval := 0 }
    let disk := Disk.withFolder "."
    let request : HttpRequest := ⟨"POST", ⟨none, "", "/update/counter/c/1", none⟩, [], []⟩
    let moves : List ServingMove :=
      [.request request, .request request, .turn 0, .turn 0, .turn 0, .turn 0, .turn 0, .leave 0,
        .turn 1, .turn 1, .turn 1, .turn 1, .turn 1, .land 1, .turn 1, .next, .next, .next, .next,
        .turn 2, .turn 2, .turn 2, .turn 2, .land 1, .turn 2, .land 0, .next]
    ∃ server l, Server.start settings false disk = .ok (server, l) ∧
      let after := (Serving.begin server ⟨l, disk, [], 0⟩).run Ledger.store moves
      after.phase = .returned ∧ after.pool.answers.getLast? = some (some (.saved (.ok ()))) ∧
      (∃ a, after.pool.answers[1]? = some (some (.response a)) ∧ a.isSuccess = true) ∧
      after.pool.state.store.toRecords = [Metric.ofUpdate ⟨"c", .counter 2⟩] ∧
      after.pool.state.disk.nodes.get? "metrics.json" =
        some (.file (SnapshotFile.contents [Metric.ofUpdate ⟨"c", .counter 1⟩])) ∧
      SnapshotFile.contents [Metric.ofUpdate ⟨"c", .counter 1⟩] ≠
        SnapshotFile.contents after.pool.state.store.toRecords := by
  intro settings disk request moves
  have hreached : (Server.start settings false disk).toOption.map (fun r =>
      let after := (Serving.begin r.1 ⟨r.2, disk, [], 0⟩).run Ledger.store moves
      (after.phase, after.pool.state.store.toRecords,
        after.pool.state.disk.nodes.get? "metrics.json",
        after.pool.answers[1]?.join.any fun a =>
          match a with | .response a => a.isSuccess | _ => false)) =
      some (.returned, [Metric.ofUpdate ⟨"c", .counter 2⟩],
        some (.file (SnapshotFile.contents [Metric.ofUpdate ⟨"c", .counter 1⟩])), true) := by
    decide +kernel
  have hlast : (Server.start settings false disk).toOption.map (fun r =>
      ((Serving.begin r.1 ⟨r.2, disk, [], 0⟩).run Ledger.store moves).pool.answers.getLast?) =
      some (some (some (.saved (.ok ())))) := by cbv
  have hdiffer : SnapshotFile.contents [Metric.ofUpdate ⟨"c", .counter 1⟩] ≠
      SnapshotFile.contents [Metric.ofUpdate ⟨"c", .counter 2⟩] := by decide +kernel
  clear_value disk moves
  obtain ⟨⟨server, l⟩, hstart, hreached⟩ := Option.map_eq_some_iff.mp hreached
  rw [hstart] at hlast
  obtain ⟨hphase, hreached⟩ := Prod.mk.inj hreached
  obtain ⟨hstore, hreached⟩ := Prod.mk.inj hreached
  obtain ⟨hcontent, hsuccess⟩ := Prod.mk.inj hreached
  refine ⟨server, l, Chaining.ok_of_toOption hstart, hphase, Option.some.inj hlast,
    response_of_any hsuccess, hstore, hcontent, ?_⟩
  rw [hstore]
  exact hdiffer
end Metering
