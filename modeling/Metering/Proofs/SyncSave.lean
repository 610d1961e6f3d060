import Metering.Ingest.Service
import Metering.Proofs.ExportReads
import Metering.Proofs.FileReplace

/-!
Saving after every write, with many writers.

A call writes, waits for the right to save, takes the gauges and the counters, hands the listing
over, waits until it has landed and gives the right back. Between any two of these steps other
calls can take theirs. Only one task has the right to save, and it keeps it until its own write has
landed; so of two saves the second reads after the first has landed, and what lies in the file was
read after every call that has come out of its save had written.

`Inside` and `Outside` say where a call can be, with and without the right to save, and what is
known there; `Safe` is the invariant of all calls together.

Results:
1. `update_steps`: both kinds of write take the same steps.
2. `Safe.succ`: one move, by its kind; `safe_at`: every point of every course of events.
3. `sync_save_durable`: what a call that has returned, a save, and a quiet server have shown.
-/
namespace Metering

open ServerTask ServerPool

/-- The moves of a service whose calls write and are not cancelled. -/
inductive Service.Writing (v : Service) : PoolMove (Except Refusal Unit) → Prop
  | update (u : Update) (source : Option String) : Writing v (.start (v.update u source))
  | updateAll (us : List Update) (source : Option String) :
      Writing v (.start (v.updateAll us source))
  | turn (k : Nat) : Writing v (.turn k)
  | land (i : Nat) : Writing v (.land i)

namespace SyncSave

/-! ## 1. The steps of a call -/

/-- What a call has left to do after its save. -/
inductive Tail : ServerTask (Except Refusal Unit) → Prop
  | done : Tail (.done (.ok ()))
  | publish (ids : List String) (source : String) :
      Tail (.step (.publish ids source) fun _ => .done (.ok ()))

/-- The save of a call, and the rest of the call. -/
def saving (file : SnapshotFile) (tail : ServerTask (Except Refusal Unit)) :
    ServerTask (Except Refusal Unit) :=
  .step .beginSave fun _ => listThen (file.handThen fun _ => tail)

/-- How a call goes on after its write. -/
def proceed (file : SnapshotFile) (tail : ServerTask (Except Refusal Unit)) :
    Except StoreFault Unit → ServerTask (Except Refusal Unit)
  | .error e => .done (.error (.fault e))
  | .ok () => saving file tail

theorem write_steps {v : Service} {file : SnapshotFile} (hsync : v.savesTo = some file)
    (call : StoreCall Unit) (ids : List String) (source : Option String) :
    ∃ tail, Tail tail ∧
      v.write (.single call) ids source = .step (.store call) (proceed file tail) := by
  obtain ⟨_, audits⟩ := v
  obtain rfl : _ = some file := hsync
  let audit : ServerTask Unit :=
    if audits then .single (.publish ids (source.getD "")) else .done ()
  refine ⟨audit.map .ok, ?_, ?_⟩
  · cases audits with
    | true => exact .publish ids (source.getD "")
    | false => exact .done
  · refine congrArg (ServerTask.step (.store call)) (funext fun r => ?_)
    cases r with
    | error e => rfl
    | ok =>
      rw [proceed, saving, ← SnapshotFile.saveTask_andThen]
      exact andThen_assoc _ _ _

/-- Both kinds of write are one call to the ledger, and then the save. -/
theorem update_steps {v : Service} {file : SnapshotFile} (hsync : v.savesTo = some file)
    {task : ServerTask (Except Refusal Unit)} (h : v.Writing (.start task)) :
    ∃ call tail, call.isWrite = true ∧ Tail tail ∧
      task = .step (.store call) (proceed file tail) := by
  cases h with
  | update u source =>
    obtain ⟨id, value⟩ := u
    cases value with
    | gauge x =>
      obtain ⟨tail, htail, heq⟩ := write_steps hsync (.setGauge id x) [id] source
      exact ⟨_, tail, rfl, htail, heq⟩
    | counter d =>
      obtain ⟨tail, htail, heq⟩ := write_steps hsync (.addCounter id d) [id] source
      exact ⟨_, tail, rfl, htail, heq⟩
  | updateAll us source =>
    obtain ⟨tail, htail, heq⟩ := write_steps hsync (.batch us) (us.map Update.id) source
    exact ⟨_, tail, rfl, htail, heq⟩

/-! ## 2. Where calls can be -/

/-- The points of a save: its two reads and its landing. -/
structure Save where
  gauges : Nat
  counters : Nat
  landing : Nat

section
variable (file : SnapshotFile) (start : ServerPool (Except Refusal Unit) Ledger)
  (moves : List (PoolMove (Except Refusal Unit)))

/-- A save of a course of events: a task reads, and what it has read lands later. Nothing else
lands between its reads and its landing. -/
structure Save.Happens (v : Save) : Prop where
  own : ∃ k, start.ListsAt moves k v.gauges v.counters ∧
    start.LandsAt moves v.landing ⟨k, file, start.shown moves v.gauges v.counters⟩
  order : v.counters < v.landing
  alone : ∀ l w, start.LandsAt moves l w → l < v.landing → l < v.gauges

/-- A task has written before a given point, and not from there on. -/
structure WroteBefore (n k point : Nat) : Prop where
  wrote : ∃ a < n, start.WritesAt moves a k
  before : ∀ a < n, start.WritesAt moves a k → a < point

/-- Where a call can be that does not have the right to save. -/
inductive Outside (n k : Nat) (last : Option Save) : ServerTask (Except Refusal Unit) → Prop
  | waiting {call : StoreCall Unit} {tail : ServerTask (Except Refusal Unit)} :
      call.isWrite = true → Tail tail → (∀ a < n, ¬ start.WritesAt moves a k) →
      Outside n k last (.step (.store call) (proceed file tail))
  | refused {e : Refusal} : (∀ a < n, ¬ start.WritesAt moves a k) →
      Outside n k last (.done (.error e))
  | written {tail : ServerTask (Except Refusal Unit)} :
      Tail tail → (∃ a < n, start.WritesAt moves a k) → Outside n k last (saving file tail)
  | saved {v : Save} {tail : ServerTask (Except Refusal Unit)} :
      Tail tail → last = some v → WroteBefore start moves n k v.gauges → Outside n k last tail

/-- Where a call can be that has the right to save. While it reads and hands over, no write of
another task lands. -/
inductive Inside (n k : Nat) (last : Option Save) : ServerTask (Except Refusal Unit) → Prop
  | asking {tail : ServerTask (Except Refusal Unit)} :
      Tail tail → (∃ a < n, start.WritesAt moves a k) →
      Inside n k last (listThen (file.handThen fun _ => tail))
  | counting {g : Nat} {tail : ServerTask (Except Refusal Unit)} :
      Tail tail → WroteBefore start moves n k g →
      start.EventAt moves g k ⟨.gauges, .ok (start.ledgerAt moves g).gauges⟩ → g < n →
      (∀ l w, l < n → start.LandsAt moves l w → l < g) →
      Inside n k last (countThen (start.ledgerAt moves g).gauges (file.handThen fun _ => tail))
  | handing {g c : Nat} {tail : ServerTask (Except Refusal Unit)} :
      Tail tail → WroteBefore start moves n k g → start.ListsAt moves k g c → c < n →
      (∀ l w, l < n → start.LandsAt moves l w → l < g) →
      Inside n k last (file.handThen (fun _ => tail) (.ok (start.shown moves g c)))
  | leaving {v : Save} {tail : ServerTask (Except Refusal Unit)} :
      Tail tail → last = some v → WroteBefore start moves n k v.gauges →
      Inside n k last (.step .endSave fun _ => tail)

/-- A call stands where it can stand, by who has the right to save. -/
def Stands (n k : Nat) (last : Option Save) (task : ServerTask (Except Refusal Unit)) : Prop :=
  if (start.before moves n).holder = some k then Inside file start moves n k last task
  else Outside file start moves n k last task

/-- What is known of the saves before a point and of the file that they leave. -/
structure Filed (n : Nat) (last : Option Save) : Prop where
  saves : ∀ l w, l < n → start.LandsAt moves l w →
    ∃ v : Save, v.Happens file start moves ∧ v.landing = l
  past : ∀ v, last = some v → v.Happens file start moves ∧ v.landing < n
  current : ∀ v, last = some v → (start.before moves n).state.disk.nodes.get? file.path =
    some (.file (SnapshotFile.contents (start.shown moves v.gauges v.counters)))
  untouched : last = none → (start.before moves n).state.disk = start.state.disk

/-- What holds at every point. A write that has not landed belongs to the task that has the right
to save. -/
structure Safe (n : Nat) (last : Option Save) : Prop where
  tasks : ∀ k t, (start.before moves n).tasks[k]? = some t →
    ∃ task, t = .running task ∧ Stands file start moves n k last task
  holder : ∀ k, (start.before moves n).holder = some k → k < (start.before moves n).tasks.length
  writes : ∀ w ∈ (start.before moves n).writes, (start.before moves n).holder = some w.owner ∧
    w.file = file ∧ ∃ task, (start.before moves n).tasks[w.owner]? = some (.running task) ∧
      task.handed? = some w.metrics
  single : (start.before moves n).writes.length ≤ 1
  filed : Filed file start moves n last

end

section
variable {file : SnapshotFile} {start : ServerPool (Except Refusal Unit) Ledger}
  {moves : List (PoolMove (Except Refusal Unit))} {n k : Nat} {last : Option Save}
  {task : ServerTask (Except Refusal Unit)}

/-- What is known of all writes of a task so far is known of them one move later, if the move is
none of them. -/
theorem writes_succ {Q : Nat → Prop} (h : ∀ a < n, start.WritesAt moves a k → Q a)
    (hquiet : ¬ start.WritesAt moves n k) : ∀ a < n + 1, start.WritesAt moves a k → Q a := by
  intro a ha hw
  rcases Nat.lt_succ_iff_lt_or_eq.mp ha with ha | rfl
  · exact h a ha hw
  · exact absurd hw hquiet

/-- The same for everything that has landed. -/
theorem landings_succ {Q : Nat → Prop} (h : ∀ l w, l < n → start.LandsAt moves l w → Q l)
    (hlands : ∀ w, ¬ start.LandsAt moves n w) :
    ∀ l w, l < n + 1 → start.LandsAt moves l w → Q l := by
  intro l w hl hw
  rcases Nat.lt_succ_iff_lt_or_eq.mp hl with hl | rfl
  · exact h l w hl hw
  · exact absurd hw (hlands w)

theorem WroteBefore.succ {point : Nat} (h : WroteBefore start moves n k point)
    (hquiet : ¬ start.WritesAt moves n k) : WroteBefore start moves (n + 1) k point := by
  obtain ⟨⟨a, ha, hwrites⟩, hbefore⟩ := h
  exact ⟨⟨a, Nat.lt_succ_of_lt ha, hwrites⟩, writes_succ hbefore hquiet⟩

theorem wrote_succ (h : ∃ a < n, start.WritesAt moves a k) :
    ∃ a < n + 1, start.WritesAt moves a k := by
  obtain ⟨a, ha, hwrites⟩ := h
  exact ⟨a, Nat.lt_succ_of_lt ha, hwrites⟩

theorem unwritten_succ (h : ∀ a < n, ¬ start.WritesAt moves a k)
    (hquiet : ¬ start.WritesAt moves n k) : ∀ a < n + 1, ¬ start.WritesAt moves a k :=
  writes_succ h hquiet

theorem Outside.succ (h : Outside file start moves n k last task)
    (hquiet : ¬ start.WritesAt moves n k) : Outside file start moves (n + 1) k last task := by
  cases h with
  | waiting hcall htail hnone => exact .waiting hcall htail (unwritten_succ hnone hquiet)
  | refused hnone => exact .refused (unwritten_succ hnone hquiet)
  | written htail hwrote => exact .written htail (wrote_succ hwrote)
  | saved htail hlast hwrote => exact .saved htail hlast (hwrote.succ hquiet)

/-- What a task outside has seen saved is still saved by a save that reads later. -/
theorem Outside.newer {v : Save} (h : Outside file start moves n k last task)
    (hnewer : ∀ u, last = some u → u.gauges ≤ v.gauges) :
    Outside file start moves n k (some v) task := by
  cases h with
  | waiting hcall htail hnone => exact .waiting hcall htail hnone
  | refused hnone => exact .refused hnone
  | written htail hwrote => exact .written htail hwrote
  | @saved u tail htail hlast hwrote =>
    exact .saved htail rfl ⟨hwrote.wrote, fun a ha hw =>
      Nat.lt_of_lt_of_le (hwrote.before a ha hw) (hnewer u hlast)⟩

theorem Inside.succ (h : Inside file start moves n k last task)
    (hquiet : ¬ start.WritesAt moves n k) (hlands : ∀ w, ¬ start.LandsAt moves n w) :
    Inside file start moves (n + 1) k last task := by
  cases h with
  | asking htail hwrote => exact .asking htail (wrote_succ hwrote)
  | counting htail hwrote hread hg hl =>
    exact .counting htail (hwrote.succ hquiet) hread (Nat.lt_succ_of_lt hg)
      (landings_succ hl hlands)
  | handing htail hwrote hlists hc hl =>
    exact .handing htail (hwrote.succ hquiet) hlists (Nat.lt_succ_of_lt hc)
      (landings_succ hl hlands)
  | leaving htail hlast hwrote => exact .leaving htail hlast (hwrote.succ hquiet)

theorem Stands.succ (h : Stands file start moves n k last task)
    (hholder : (start.before moves (n + 1)).holder = some k ↔
      (start.before moves n).holder = some k)
    (hquiet : ¬ start.WritesAt moves n k) (hlands : ∀ w, ¬ start.LandsAt moves n w) :
    Stands file start moves (n + 1) k last task := by
  unfold Stands at h ⊢
  split at h
  next hk =>
    rw [if_pos (hholder.mpr hk)]
    exact h.succ hquiet hlands
  next hk =>
    rw [if_neg fun hk' => hk (hholder.mp hk')]
    exact h.succ hquiet

theorem Stands.inside (h : Stands file start moves n k last task)
    (hk : (start.before moves n).holder = some k) : Inside file start moves n k last task := by
  rwa [Stands, if_pos hk] at h

theorem Stands.outside (h : Stands file start moves n k last task)
    (hk : (start.before moves n).holder ≠ some k) : Outside file start moves n k last task := by
  rwa [Stands, if_neg hk] at h

theorem Filed.succ (h : Filed file start moves n last) (hlands : ∀ w, ¬ start.LandsAt moves n w)
    (hdisk : (start.before moves (n + 1)).state.disk = (start.before moves n).state.disk) :
    Filed file start moves (n + 1) last := by
  refine ⟨landings_succ h.saves hlands, fun v hv => ?_, fun v hv => ?_, fun hnone => ?_⟩
  · exact ⟨(h.past v hv).1, Nat.lt_succ_of_lt (h.past v hv).2⟩
  · rw [hdisk]
    exact h.current v hv
  · rw [hdisk]
    exact h.untouched hnone

/-- A save that lands is the last one from then on. -/
theorem Filed.land {v : Save} (h : Filed file start moves n last)
    (hv : v.Happens file start moves) (hn : v.landing = n)
    (hdisk : (start.before moves (n + 1)).state.disk.nodes.get? file.path =
      some (.file (SnapshotFile.contents (start.shown moves v.gauges v.counters)))) :
    Filed file start moves (n + 1) (some v) := by
  refine ⟨fun l w hl hw => ?_, fun u hu => ?_, fun u hu => ?_, fun hnone => by cases hnone⟩
  · rcases Nat.lt_succ_iff_lt_or_eq.mp hl with hl | rfl
    · exact h.saves l w hl hw
    · exact ⟨v, hv, hn⟩
  · obtain rfl := Option.some.inj hu
    exact ⟨hv, hn ▸ Nat.lt_succ_self _⟩
  · obtain rfl := Option.some.inj hu
    exact hdisk

/-! ## 3. One move -/

theorem not_writesAt_of_ne {m : PoolMove (Except Refusal Unit)} (hm : moves[n]? = some m)
    (hne : m ≠ .turn k) : ¬ start.WritesAt moves n k := by
  rintro ⟨e, ⟨hturn, -⟩, -⟩
  exact hne (Option.some.inj (hm.symm.trans hturn))

theorem not_landsAt_of_ne (start : ServerPool (Except Refusal Unit) Ledger)
    {m : PoolMove (Except Refusal Unit)} (hm : moves[n]? = some m)
    (hne : ∀ i, m ≠ .land i) (w : FileWrite) : ¬ start.LandsAt moves n w := by
  rintro ⟨i, hland, -⟩
  exact hne i (Option.some.inj (hm.symm.trans hland))

/-- A call starts outside, with nothing written. -/
theorem Safe.begin {v : Service} (hsync : v.savesTo = some file)
    (h : Safe file start moves n last) (hm : moves[n]? = some (.start task))
    (hv : v.Writing (.start task)) : Safe file start moves (n + 1) last := by
  have hafter : start.before moves (n + 1) =
      { start.before moves n with tasks := (start.before moves n).tasks ++ [.running task] } :=
    before_succ hm
  have hquiet (j : Nat) : ¬ start.WritesAt moves n j := not_writesAt_of_ne hm (by simp)
  have hlands := not_landsAt_of_ne start hm (by simp)
  have hholder (j : Nat) : (start.before moves (n + 1)).holder = some j ↔
      (start.before moves n).holder = some j := by rw [hafter]
  have hlater {j : Nat} {t : PoolTask (Except Refusal Unit)}
      (hj : (start.before moves n).tasks[j]? = some t) :
      (start.before moves (n + 1)).tasks[j]? = some t := by
    rw [hafter]
    exact (List.getElem?_append_left (List.getElem?_eq_some_iff.mp hj).1).trans hj
  refine ⟨fun j t hj => ?_, fun j hj => ?_, fun w hw => ?_, ?_, ?_⟩
  · rw [hafter] at hj
    rcases Nat.lt_or_ge j (start.before moves n).tasks.length with hold | hnew
    · obtain ⟨task', rfl, hstands⟩ := h.tasks j t ((List.getElem?_append_left hold).symm.trans hj)
      exact ⟨task', rfl, hstands.succ (hholder j) (hquiet j) hlands⟩
    · rw [List.getElem?_append_right hnew, List.getElem?_singleton] at hj
      split at hj
      next hzero =>
        obtain rfl := Option.some.inj hj
        obtain rfl : j = (start.before moves n).tasks.length :=
          Nat.le_antisymm (Nat.le_of_sub_eq_zero hzero) hnew
        obtain ⟨call, tail, hcall, htail, rfl⟩ := update_steps hsync hv
        refine ⟨_, rfl, ?_⟩
        rw [Stands, if_neg fun hj => absurd (h.holder _ ((hholder _).mp hj)) (Nat.lt_irrefl _)]
        -- Nobody with this number has done anything yet.
        refine .waiting hcall htail fun a ha ⟨e, he, _⟩ => ?_
        have hlen := length_before_le start moves (Nat.le_of_lt_succ ha)
        exact absurd (lt_length_of_eventAt he) (Nat.not_lt.mpr hlen)
      next => cases hj
  · rw [hafter] at hj ⊢
    exact Nat.lt_of_lt_of_le (h.holder j hj) (by simp)
  · obtain ⟨hown, hfile, task', htask, hhanded⟩ := h.writes w (by rwa [hafter] at hw)
    exact ⟨(hholder _).mpr hown, hfile, task', hlater htask, hhanded⟩
  · rw [hafter]
    exact h.single
  · exact h.filed.succ hlands (by rw [hafter])

/-- A move that changes nothing. -/
theorem Safe.idle (h : Safe file start moves n last)
    (hpool : start.before moves (n + 1) = start.before moves n)
    (hquiet : ∀ j, ¬ start.WritesAt moves n j) (hlands : ∀ w, ¬ start.LandsAt moves n w) :
    Safe file start moves (n + 1) last := by
  refine ⟨fun j t hj => ?_, fun j hj => ?_, fun w hw => ?_, ?_, ?_⟩
  · obtain ⟨task, rfl, hstands⟩ := h.tasks j t (hpool ▸ hj)
    exact ⟨task, rfl, hstands.succ (by rw [hpool]) (hquiet j) hlands⟩
  · rw [hpool] at hj ⊢
    exact h.holder j hj
  · rw [hpool] at hw ⊢
    exact h.writes w hw
  · rw [hpool]
    exact h.single
  · exact h.filed.succ hlands (by rw [hpool])

theorem not_writesAt_of_turn (hm : moves[n]? = some (.turn k)) {j : Nat} (hj : j ≠ k) :
    ¬ start.WritesAt moves n j :=
  not_writesAt_of_ne hm fun h => hj (PoolMove.turn.inj h).symm

/-- A turn of one task, which hands nothing over. -/
theorem Safe.turn_own (h : Safe file start moves n last) (hm : moves[n]? = some (.turn k))
    (hk : (start.before moves n).tasks[k]? = some (.running task)) (hhanded : task.handed? = none)
    {task' : ServerTask (Except Refusal Unit)}
    (htasks : (start.before moves (n + 1)).tasks =
      (start.before moves n).tasks.set k (.running task'))
    (hdisk : (start.before moves (n + 1)).state.disk = (start.before moves n).state.disk)
    (hwrites : (start.before moves (n + 1)).writes = (start.before moves n).writes)
    (hholder : ∀ j, j ≠ k → ((start.before moves (n + 1)).holder = some j ↔
      (start.before moves n).holder = some j))
    (hstands : Stands file start moves (n + 1) k last task') :
    Safe file start moves (n + 1) last := by
  have hlt : k < (start.before moves n).tasks.length := (List.getElem?_eq_some_iff.mp hk).1
  have hlands := not_landsAt_of_ne start hm (by simp)
  refine ⟨fun j t hj => ?_, fun j hj => ?_, fun w hw => ?_, ?_, ?_⟩
  · rw [htasks] at hj
    by_cases hjk : j = k
    · subst hjk
      rw [List.getElem?_set_self hlt] at hj
      obtain rfl := Option.some.inj hj
      exact ⟨task', rfl, hstands⟩
    · rw [List.getElem?_set_ne (Ne.symm hjk)] at hj
      obtain ⟨other, rfl, hother⟩ := h.tasks j t hj
      exact ⟨other, rfl, hother.succ (hholder j hjk) (not_writesAt_of_turn hm hjk) hlands⟩
  · rw [htasks, List.length_set]
    by_cases hjk : j = k
    · rwa [hjk]
    · exact h.holder j ((hholder j hjk).mp hj)
  · rw [hwrites] at hw
    obtain ⟨hown, hfile, other, hother, hgives⟩ := h.writes w hw
    have hne : w.owner ≠ k := by
      rintro heq
      rw [heq, hk] at hother
      obtain rfl := PoolTask.running.inj (Option.some.inj hother)
      rw [hhanded] at hgives
      cases hgives
    refine ⟨(hholder _ hne).mpr hown, hfile, other, ?_, hgives⟩
    rw [htasks, List.getElem?_set_ne hne.symm, hother]
  · rw [hwrites]
    exact h.single
  · exact h.filed.succ hlands hdisk

/-- A turn of a task that hands a listing over, or waits for it to land. -/
theorem Safe.hand {ms : List Metric} {next : Except StoreFault Unit → ServerTask (Except Refusal Unit)}
    (h : Safe file start moves n last) (hm : moves[n]? = some (.turn k))
    (hk : (start.before moves n).tasks[k]? = some (.running (.step (.replaceFile file ms) next)))
    (hholder : (start.before moves n).holder = some k) : Safe file start moves (n + 1) last := by
  have hafter : start.before moves (n + 1) = (start.before moves n).turn Ledger.store k :=
    before_succ hm
  have hlands := not_landsAt_of_ne start hm (by simp)
  have hquiet (j : Nat) : ¬ start.WritesAt moves n j := by
    by_cases hj : j = k
    · subst hj
      exact not_writesAt_of_event? (by rw [event?, hk])
    · exact not_writesAt_of_turn hm hj
  rw [turn_replaceFile hk] at hafter
  split at hafter
  next => exact h.idle hafter hquiet hlands
  next hany =>
    -- A write that has not landed would be this task's own.
    have hnone : (start.before moves n).writes = [] := by
      refine List.eq_nil_iff_forall_not_mem.mpr fun w hw => hany ?_
      have hown := (h.writes w hw).1
      rw [hholder] at hown
      exact List.any_eq_true.mpr ⟨w, hw, beq_iff_eq.mpr (Option.some.inj hown).symm⟩
    rw [hnone] at hafter
    refine ⟨fun j t hj => ?_, fun j hj => ?_, fun w hw => ?_, ?_, ?_⟩
    · obtain ⟨task, rfl, hstands⟩ := h.tasks j t (by rwa [hafter] at hj)
      exact ⟨task, rfl, hstands.succ (by rw [hafter]) (hquiet j) hlands⟩
    · rw [hafter] at hj ⊢
      exact h.holder j hj
    · rw [hafter] at hw ⊢
      obtain rfl := List.mem_singleton.mp hw
      exact ⟨hholder, rfl, _, hk, rfl⟩
    · rw [hafter]
      exact Nat.le_refl 1
    · exact h.filed.succ hlands (by rw [hafter])

/-- A turn of the task that has the right to save. -/
theorem Safe.turn_inside (h : Safe file start moves n last) (hm : moves[n]? = some (.turn k))
    (hk : (start.before moves n).tasks[k]? = some (.running task))
    (hholder : (start.before moves n).holder = some k)
    (hin : Inside file start moves n k last task) : Safe file start moves (n + 1) last := by
  have hafter : start.before moves (n + 1) = (start.before moves n).turn Ledger.store k :=
    before_succ hm
  have hlands := not_landsAt_of_ne start hm (by simp)
  have hstays {task' : ServerTask (Except Refusal Unit)}
      (hheld : (start.before moves (n + 1)).holder = some k)
      (hin : Inside file start moves (n + 1) k last task') :
      Stands file start moves (n + 1) k last task' := by
    rwa [Stands, if_pos hheld]
  have hread {e : StoreEvent} (he : start.EventAt moves n k e) (hnone : e.accepted? = none) :
      ¬ start.WritesAt moves n k := by
    rintro ⟨e', he', haccepted⟩
    obtain rfl := Option.some.inj (he'.2.symm.trans he.2)
    rw [hnone] at haccepted
    cases haccepted
  cases hin with
  | @asking tail htail hwrote =>
    have hevent : start.EventAt moves n k ⟨.gauges, .ok (start.ledgerAt moves n).gauges⟩ :=
      ⟨hm, event?_of_store hk⟩
    rw [turn_store hk] at hafter
    have hheld : (start.before moves (n + 1)).holder = some k := by rw [hafter]; exact hholder
    have htasks : (start.before moves (n + 1)).tasks = (start.before moves n).tasks.set k
        (.running (countThen (start.ledgerAt moves n).gauges (file.handThen fun _ => tail))) := by
      rw [hafter]
      rfl
    refine h.turn_own hm hk rfl htasks (by rw [hafter]) (by rw [hafter]; rfl)
      (fun j _ => by rw [hheld, hholder]) (hstays hheld ?_)
    have hbefore : ∀ a < n + 1, start.WritesAt moves a k → a < n :=
      writes_succ (fun a ha _ => ha) (hread hevent rfl)
    exact .counting htail ⟨wrote_succ hwrote, hbefore⟩ hevent (Nat.lt_succ_self n)
      (landings_succ (fun l w hl _ => hl) hlands)
  | @counting g tail htail hwrote hgauges hg hl =>
    have hevent : start.EventAt moves n k ⟨.counters, .ok (start.ledgerAt moves n).counters⟩ :=
      ⟨hm, event?_of_store hk⟩
    rw [turn_store hk] at hafter
    have hheld : (start.before moves (n + 1)).holder = some k := by rw [hafter]; exact hholder
    have htasks : (start.before moves (n + 1)).tasks = (start.before moves n).tasks.set k
        (.running (file.handThen (fun _ => tail) (.ok (start.shown moves g n)))) := by
      rw [hafter]
      rfl
    refine h.turn_own hm hk rfl htasks (by rw [hafter]) (by rw [hafter]; rfl)
      (fun j _ => by rw [hheld, hholder]) (hstays hheld ?_)
    exact .handing htail (hwrote.succ (hread hevent rfl)) ⟨hgauges, hevent, hg⟩
      (Nat.lt_succ_self n) (landings_succ hl hlands)
  | handing htail hwrote hlists hc hl => exact h.hand hm hk hholder
  | @leaving v tail htail hlast hwrote =>
    have hquiet : ¬ start.WritesAt moves n k := not_writesAt_of_event? (by rw [event?, hk])
    rw [turn_endSave hk] at hafter
    have hfree : (start.before moves (n + 1)).holder = none := by rw [hafter]
    refine h.turn_own hm hk rfl (by rw [hafter]; rfl) (by rw [hafter]; rfl) (by rw [hafter]; rfl)
      (fun j hj => ?_) ?_
    · rw [hfree, hholder]
      simp [Ne.symm hj]
    · rw [Stands, if_neg (by rw [hfree]; simp)]
      exact .saved htail hlast (hwrote.succ hquiet)

/-- A turn of a task that does not have the right to save. -/
theorem Safe.turn_outside (h : Safe file start moves n last) (hm : moves[n]? = some (.turn k))
    (hk : (start.before moves n).tasks[k]? = some (.running task))
    (hholder : (start.before moves n).holder ≠ some k)
    (hout : Outside file start moves n k last task) : Safe file start moves (n + 1) last := by
  have hafter : start.before moves (n + 1) = (start.before moves n).turn Ledger.store k :=
    before_succ hm
  have hlands := not_landsAt_of_ne start hm (by simp)
  have hstays {task' : ServerTask (Except Refusal Unit)}
      (hsame : (start.before moves (n + 1)).holder = (start.before moves n).holder)
      (hout : Outside file start moves (n + 1) k last task') :
      Stands file start moves (n + 1) k last task' := by
    rwa [Stands, hsame, if_neg hholder]
  have hquiet (he : (start.before moves n).event? k = none) (j : Nat) :
      ¬ start.WritesAt moves n j := by
    by_cases hj : j = k
    · subst hj
      exact not_writesAt_of_event? he
    · exact not_writesAt_of_turn hm hj
  have hdone {a : Except Refusal Unit} (hk : (start.before moves n).tasks[k]? =
      some (.running (.done a))) : Safe file start moves (n + 1) last :=
    h.idle (hafter.trans (turn_of_done hk)) (hquiet (by rw [event?, hk])) hlands
  cases hout with
  | @waiting call tail hcall htail hnone =>
    have hevent := event?_of_store hk
    rw [turn_store hk] at hafter
    have hsame : (start.before moves (n + 1)).holder = (start.before moves n).holder := by
      rw [hafter]
      rfl
    refine h.turn_own hm hk rfl (by rw [hafter]; rfl) (by rw [hafter]) (by rw [hafter]; rfl)
      (fun j _ => by rw [hsame]) (hstays hsame ?_)
    cases hanswer : (Ledger.store.call call (start.before moves n).state.store).1 with
    | error e =>
      refine .refused (unwritten_succ hnone ?_)
      rintro ⟨e', ⟨-, he'⟩, haccepted⟩
      obtain rfl := Option.some.inj (hevent.symm.trans he')
      rw [StoreEvent.accepted?_of_failed ⟨e, hanswer⟩] at haccepted
      cases haccepted
    | ok =>
      refine .written htail ⟨n, Nat.lt_succ_self n, _, ⟨hm, hevent⟩, ?_⟩
      refine StoreEvent.accepted?_of_isWrite hcall ?_
      rintro ⟨e, he⟩
      cases hanswer.symm.trans he
  | refused hnone => exact hdone hk
  | @written tail htail hwrote =>
    have hidle := hquiet (by rw [event?, hk]; rfl)
    rw [turn_beginSave hk] at hafter
    split at hafter
    next hfree =>
      have hheld : (start.before moves (n + 1)).holder = some k := by rw [hafter]
      refine h.turn_own hm hk rfl (by rw [hafter]; rfl) (by rw [hafter]; rfl) (by rw [hafter]; rfl)
        (fun j hj => ?_) ?_
      · rw [hheld, Option.isNone_iff_eq_none.mp hfree]
        simp [Ne.symm hj]
      · rw [Stands, if_pos hheld]
        exact .asking htail (wrote_succ hwrote)
    next => exact h.idle hafter hidle hlands
  | @saved v tail htail hlast hwrote =>
    cases htail with
    | done => exact hdone hk
    | publish ids source =>
      have hidle := hquiet (by rw [event?, hk])
      rw [turn_publish hk] at hafter
      have hsame : (start.before moves (n + 1)).holder = (start.before moves n).holder := by
        rw [hafter]
        rfl
      refine h.turn_own hm hk rfl (by rw [hafter]; rfl) (by rw [hafter]) (by rw [hafter]; rfl)
        (fun j _ => by rw [hsame]) (hstays hsame ?_)
      exact .saved .done hlast (hwrote.succ (hidle k))

/-- The task whose listing is handed over has read it, and nothing has landed since. -/
theorem Inside.handed {ms : List Metric} (h : Inside file start moves n k last task)
    (hhanded : task.handed? = some ms) :
    ∃ g c tail, Tail tail ∧ WroteBefore start moves n k g ∧ start.ListsAt moves k g c ∧ c < n ∧
      (∀ l w, l < n → start.LandsAt moves l w → l < g) ∧ ms = start.shown moves g c ∧
      task = file.handThen (fun _ => tail) (.ok ms) := by
  cases h with
  | asking => cases hhanded
  | counting => cases hhanded
  | handing htail hwrote hlists hc hl =>
    obtain rfl := Option.some.inj hhanded
    exact ⟨_, _, _, htail, hwrote, hlists, hc, hl, rfl, rfl⟩
  | leaving => cases hhanded

/-- A write lands. It belongs to the task that has the right to save, and it is the newest. -/
theorem Safe.land {i : Nat} {w : FileWrite} {disk : Disk} (h : Safe file start moves n last)
    (hm : moves[n]? = some (.land i)) (hw : (start.before moves n).writes[i]? = some w)
    (hdisk : w.file.install (SnapshotFile.contents w.metrics) (start.before moves n).state.disk =
      .ok disk) : ∃ v, Safe file start moves (n + 1) (some v) := by
  have hquiet (j : Nat) : ¬ start.WritesAt moves n j := not_writesAt_of_ne hm (by simp)
  have hlands : start.LandsAt moves n w := ⟨i, hm, hw⟩
  obtain ⟨hown, hfile, task, htask, hhanded⟩ := h.writes w (List.mem_of_getElem? hw)
  obtain ⟨k, file', ms⟩ := w
  obtain rfl : file' = file := hfile
  have hlt : k < (start.before moves n).tasks.length := (List.getElem?_eq_some_iff.mp htask).1
  obtain ⟨task', heq, hstands⟩ := h.tasks k _ htask
  obtain rfl := PoolTask.running.inj heq
  obtain ⟨g, c, tail, htail, hwrote, hlists, hc, hl, rfl, rfl⟩ :=
    (hstands.inside hown).handed hhanded
  have hafter : start.before moves (n + 1) =
      { start.before moves n with
        state := { (start.before moves n).state with disk := disk }
        tasks := (start.before moves n).tasks.set k (.running (.step .endSave fun _ => tail))
        writes := (start.before moves n).writes.eraseIdx i } := by
    rw [before_succ hm, ServerPool.step, land_eq hw]
    simp only [ServerStep.take, hdisk, resume, htask, SnapshotFile.handThen, setTask]
  have hempty : (start.before moves (n + 1)).writes = [] := by
    have hlen := List.length_eraseIdx_of_lt (List.getElem?_eq_some_iff.mp hw).1
    rw [hafter]
    exact List.length_eq_zero_iff.mp (hlen.trans (Nat.sub_eq_zero_of_le h.single))
  have hhappens : (Save.mk g c n).Happens file' start moves :=
    ⟨⟨k, hlists, hlands⟩, hc, fun l w hw hln => hl l w hln hw⟩
  refine ⟨⟨g, c, n⟩, fun j t hj => ?_, fun j hj => ?_, fun w hw => ?_, ?_, ?_⟩
  · have hheld : (start.before moves (n + 1)).holder = some k := by rw [hafter]; exact hown
    rw [hafter] at hj
    by_cases hjk : j = k
    · subst hjk
      rw [List.getElem?_set_self hlt] at hj
      obtain rfl := Option.some.inj hj
      refine ⟨_, rfl, ?_⟩
      rw [Stands, if_pos hheld]
      exact .leaving htail rfl (hwrote.succ (hquiet j))
    · rw [List.getElem?_set_ne (Ne.symm hjk)] at hj
      obtain ⟨other, rfl, hother⟩ := h.tasks j t hj
      have hnot : (start.before moves n).holder ≠ some j := by
        rw [hown]
        exact fun heq => hjk (Option.some.inj heq).symm
      refine ⟨other, rfl, ?_⟩
      rw [Stands, if_neg (by rwa [hheld, ← hown])]
      refine ((hother.outside hnot).succ (hquiet j)).newer fun u hu => ?_
      -- An earlier save has landed before this one reads.
      obtain ⟨⟨⟨_, hreads, hearlier⟩, horder, -⟩, hpast⟩ := h.filed.past u hu
      exact Nat.le_of_lt (Nat.lt_trans (Nat.lt_trans hreads.order horder)
        (hl _ _ hpast hearlier))
  · rw [hafter] at hj ⊢
    exact (List.length_set ..).symm ▸ h.holder j hj
  · rw [hempty] at hw
    cases hw
  · rw [hempty]
    exact Nat.zero_le 1
  · refine h.filed.land hhappens rfl ?_
    rw [hafter, SnapshotFile.eq_put_of_install hdisk]
    exact SnapshotFile.get?_put _ _ _

/-- One move. -/
theorem Safe.succ {v : Service} (hsync : v.savesTo = some file)
    (h : Safe file start moves n last) (hmoves : ∀ m ∈ moves, v.Writing m)
    (hsaves : ∀ w, start.LandsAt moves n w → ∃ disk, w.file.install
      (SnapshotFile.contents w.metrics) (start.before moves n).state.disk = .ok disk) :
    ∃ last, Safe file start moves (n + 1) last := by
  cases hm : moves[n]? with
  | none =>
    refine ⟨last, h.idle (before_succ_of_none hm) ?_ ?_⟩
    · rintro j ⟨e, ⟨hturn, -⟩, -⟩
      rw [hm] at hturn
      cases hturn
    · rintro w ⟨i, hland, -⟩
      rw [hm] at hland
      cases hland
  | some m =>
    cases m with
    | start task => exact ⟨last, h.begin hsync hm (hmoves _ (List.mem_of_getElem? hm))⟩
    | turn k =>
      refine ⟨last, ?_⟩
      cases hk : (start.before moves n).tasks[k]? with
      | none =>
        refine h.idle ?_ ?_ (not_landsAt_of_ne start hm (by simp))
        · rw [before_succ hm, ServerPool.step, ServerPool.turn, hk]
        · intro j
          by_cases hj : j = k
          · subst hj
            exact not_writesAt_of_event? (by rw [event?, hk])
          · exact not_writesAt_of_turn hm hj
      | some t =>
        obtain ⟨task, rfl, hstands⟩ := h.tasks k t hk
        by_cases hholder : (start.before moves n).holder = some k
        · exact h.turn_inside hm hk hholder (hstands.inside hholder)
        · exact h.turn_outside hm hk hholder (hstands.outside hholder)
    | land i =>
      cases hw : (start.before moves n).writes[i]? with
      | none =>
        refine ⟨last, h.idle ?_ (fun j => not_writesAt_of_ne hm (by simp)) ?_⟩
        · rw [before_succ hm, ServerPool.step, ServerPool.land, hw]
        · rintro w ⟨j, hj, hw'⟩
          obtain rfl := PoolMove.land.inj (Option.some.inj (hm.symm.trans hj))
          rw [hw] at hw'
          cases hw'
      | some w =>
        obtain ⟨disk, hdisk⟩ := hsaves w ⟨i, hm, hw⟩
        obtain ⟨v, hsafe⟩ := h.land hm hw hdisk
        exact ⟨some v, hsafe⟩
    | fail i fault => cases hmoves _ (List.mem_of_getElem? hm)
    | cancel k => cases hmoves _ (List.mem_of_getElem? hm)

/-! ## 4. Courses of events -/

theorem safe_zero (file : SnapshotFile) (s : ServerState Ledger)
    (moves : List (PoolMove (Except Refusal Unit))) : Safe file (.ofState s) moves 0 none := by
  refine ⟨fun k t h => ?_, fun k h => ?_, fun w h => ?_, Nat.zero_le 1, ?_⟩
  · cases h
  · cases h
  · cases h
  · refine ⟨fun l w hl => absurd hl (Nat.not_lt_zero l), fun v hv => ?_, fun v hv => ?_,
      fun _ => rfl⟩
    · cases hv
    · cases hv

/-- Every point of every course of events is safe. -/
theorem safe_at {v : Service} (hsync : v.savesTo = some file) {s : ServerState Ledger}
    (hmoves : ∀ m ∈ moves, v.Writing m)
    (hsaves : ∀ n w, (ofState s).LandsAt moves n w → ∃ disk, w.file.install
      (SnapshotFile.contents w.metrics) ((ofState s).before moves n).state.disk = .ok disk)
    (n : Nat) : ∃ last, Safe file (.ofState s) moves n last := by
  induction n with
  | zero => exact ⟨none, safe_zero file s moves⟩
  | succ n ih =>
    obtain ⟨last, h⟩ := ih
    exact h.succ hsync hmoves (hsaves n)

/-- A call that has ended was refused and has written nothing, or what it has written was read by
the last save. -/
theorem Safe.ended (h : Safe file start moves n last) {t : PoolTask (Except Refusal Unit)}
    {a : Except Refusal Unit} (hk : (start.before moves n).tasks[k]? = some t)
    (ha : t.answer? = some a) :
    (∀ b < n, ¬ start.WritesAt moves b k) ∧ (∃ e, a = .error e) ∨
    ∃ v, last = some v ∧ WroteBefore start moves n k v.gauges := by
  obtain ⟨task, rfl, hstands⟩ := h.tasks k t hk
  unfold Stands at hstands
  split at hstands
  next =>
    cases hstands with
    | asking => cases ha
    | counting => cases ha
    | handing => cases ha
    | leaving => cases ha
  next =>
    cases hstands with
    | waiting => cases ha
    | refused hnone =>
      obtain rfl := Option.some.inj ha
      exact .inl ⟨hnone, _, rfl⟩
    | written => cases ha
    | saved _ hlast hwrote => exact .inr ⟨_, hlast, hwrote⟩

/-- What a call that has returned has written was read by the last save. -/
theorem Safe.returned (h : Safe file start moves n last)
    (hk : (start.before moves n).answers[k]? = some (some (.ok ()))) :
    ∃ v a, last = some v ∧ start.WritesAt moves a k ∧ a < v.gauges := by
  rw [answers, List.getElem?_map] at hk
  obtain ⟨t, ht, ha⟩ := Option.map_eq_some_iff.mp hk
  rcases h.ended ht ha with ⟨-, e, he⟩ | ⟨v, hlast, ⟨a, ha, hwrites⟩, hbefore⟩
  · cases he
  · exact ⟨v, a, hlast, hwrites, hbefore a ha hwrites⟩

/-- A write that lands is the save of its owner. -/
theorem Safe.landed (h : Safe file start moves n last) {l : Nat} {w : FileWrite} (hl : l < n)
    (hw : start.LandsAt moves l w) : ∃ v : Save, v.Happens file start moves ∧ v.landing = l ∧
      w.file = file ∧ w.metrics = start.shown moves v.gauges v.counters := by
  obtain ⟨v, hhappens, rfl⟩ := h.filed.saves l w hl hw
  obtain ⟨k, -, j, hm', hw'⟩ := hhappens.own
  obtain ⟨i, hm, hw⟩ := hw
  obtain rfl := PoolMove.land.inj (Option.some.inj (hm'.symm.trans hm))
  obtain rfl := Option.some.inj (hw'.symm.trans hw)
  exact ⟨v, hhappens, rfl, rfl, rfl⟩

theorem lt_length_of_writesAt_moves {a : Nat} (hw : start.WritesAt moves a k) :
    a < moves.length := by
  obtain ⟨e, ⟨hm, -⟩, -⟩ := hw
  exact (List.getElem?_eq_some_iff.mp hm).1

section
variable (h : Safe file start moves moves.length last)
  (hended : ∀ a ∈ (start.before moves moves.length).answers, a ≠ none)
include h hended

/-- Where every call has ended, all writes are in the last save. -/
theorem Safe.quiet {b : Nat} (hw : start.WritesAt moves b k) :
    ∃ v, last = some v ∧ b < v.gauges := by
  have hb : b < moves.length := lt_length_of_writesAt_moves hw
  have hlt := Nat.lt_of_lt_of_le (lt_length_of_writesAt hw)
    (length_before_le start moves (Nat.le_of_lt hb))
  have hk := List.getElem?_eq_getElem hlt
  have hanswer := hended _ (List.mem_map_of_mem (List.getElem_mem hlt))
  obtain ⟨a, ha⟩ := Option.ne_none_iff_exists'.mp hanswer
  rcases h.ended hk ha with ⟨hnone, -⟩ | ⟨v, hlast, hwrote⟩
  · exact absurd hw (hnone b hb)
  · exact ⟨v, hlast, hwrote.before b hb hw⟩

/-- Without a save, nothing has been written. -/
theorem Safe.unwritten (hnone : last = none) : ∀ a k, ¬ start.WritesAt moves a k := by
  intro a k hw
  obtain ⟨v, hv, -⟩ := h.quiet hended hw
  rw [hnone] at hv
  cases hv

/-- The last save shows the ledger as it is: nothing was written from its first read on. -/
theorem Safe.shown_last {v : Save} (hlast : last = some v) :
    start.shown moves v.gauges v.counters = (start.ledgerAt moves moves.length).toRecords := by
  obtain ⟨hhappens, hlanded⟩ := h.filed.past v hlast
  obtain ⟨k, hreads, -⟩ := hhappens.own
  have hunwritten (i : Nat) (hi : v.gauges ≤ i) (k : Nat) : ¬ start.WritesAt moves i k := by
    intro hw
    obtain ⟨u, hu, hlt⟩ := h.quiet hended hw
    obtain rfl := Option.some.inj (hlast.symm.trans hu)
    exact absurd hlt (Nat.not_lt.mpr hi)
  have hreadLate : v.counters < moves.length := Nat.lt_trans hhappens.order hlanded
  have hgauges := store_of_quiet start moves
    (Nat.le_of_lt (Nat.lt_trans hreads.order hreadLate)) fun i hi _ k => hunwritten i hi k
  have hcounters := store_of_quiet start moves (Nat.le_of_lt hreadLate)
    fun i hi _ k => hunwritten i (Nat.le_trans (Nat.le_of_lt hreads.order) hi) k
  rw [shown, ← hgauges, ← hcounters]
  rfl

end

end
end SyncSave

open SyncSave in
/-- A service that saves after every write, with any number of writing calls in any course of
events in which no call is cancelled and every save that lands succeeds.

* When a call has returned successfully, the file holds what a save has read after the call wrote,
  and so whatever had been accepted by then.
* Every write of the file is such a save: its gauges were read before its counters, and these
  before it landed. Of two saves, the one that lands later has also read later, after the other
  had landed.
* Where every call has ended, the file is the listing of the ledger, or no write was ever accepted
  and ledger and disk are as they were in the beginning. -/
theorem sync_save_durable (v : Service) (file : SnapshotFile) (hsync : v.savesTo = some file)
    (s : ServerState Ledger) (moves : List (PoolMove (Except Refusal Unit)))
    (hmoves : ∀ m ∈ moves, v.Writing m)
    (hsaves : ∀ n w, (ofState s).LandsAt moves n w → ∃ disk, w.file.install
      (SnapshotFile.contents w.metrics) ((ofState s).before moves n).state.disk = .ok disk) :
    let start : ServerPool (Except Refusal Unit) Ledger := .ofState s
    let pool := start.run Ledger.store moves
    let content := pool.state.disk.nodes.get? file.path
    (∀ k, pool.answers[k]? = some (some (.ok ())) →
      ∃ (a : Nat) (save : Save), start.WritesAt moves a k ∧ a < save.gauges ∧
        save.Happens file start moves ∧
        content = some (.file (SnapshotFile.contents
          (start.shown moves save.gauges save.counters))) ∧
        start.written (moves.take save.gauges) =
          start.written (moves.take (a + 1)) ++ start.writtenBetween moves (a + 1) save.gauges) ∧
    (∀ n w, start.LandsAt moves n w → ∃ save : Save, save.Happens file start moves ∧
      save.landing = n ∧ w.file = file ∧
      w.metrics = start.shown moves save.gauges save.counters) ∧
    (∀ earlier later : Save, earlier.Happens file start moves → later.Happens file start moves →
      earlier.landing < later.landing → earlier.landing < later.gauges) ∧
    ((∀ a ∈ pool.answers, a ≠ none) →
      content = some (.file (SnapshotFile.contents pool.state.store.toRecords)) ∨
      (∀ a k, ¬ start.WritesAt moves a k) ∧ pool.state.store = s.store ∧
        pool.state.disk = s.disk) := by
  intro start pool content
  obtain ⟨last, h⟩ := safe_at hsync hmoves hsaves moves.length
  have hpool : start.before moves moves.length = pool := before_length
  have hcontent : ∀ v, last = some v → content =
      some (.file (SnapshotFile.contents (start.shown moves v.gauges v.counters))) := by
    intro v hlast
    show pool.state.disk.nodes.get? file.path = _
    rw [← hpool]
    exact h.filed.current v hlast
  refine ⟨?_, ?_, ?_, ?_⟩
  · intro k hk
    rw [← hpool] at hk
    obtain ⟨save, a, hlast, hwrites, hread⟩ := h.returned hk
    exact ⟨a, save, hwrites, hread, (h.filed.past save hlast).1, hcontent save hlast,
      written_take hread⟩
  · rintro n w ⟨i, hm, hw⟩
    exact h.landed (List.getElem?_eq_some_iff.mp hm).1 ⟨i, hm, hw⟩
  · intro earlier later hearlier hlater hlt
    obtain ⟨k, -, hlands⟩ := hearlier.own
    exact hlater.alone _ _ hlands hlt
  · intro hended
    rw [← hpool] at hended
    cases hlast : last with
    | none =>
      have hnone := h.unwritten hended hlast
      have hsame := store_of_quiet start moves (Nat.zero_le moves.length)
        fun i _ _ k => hnone i k
      rw [ledgerAt, hpool] at hsame
      refine .inr ⟨hnone, hsame, ?_⟩
      rw [← hpool]
      exact h.filed.untouched hlast
    | some save =>
      refine .inl ?_
      rw [hcontent save hlast, h.shown_last hended hlast, ledgerAt, hpool]

open SyncSave in
/-- The counter of a call that runs to its end is in the file when the call has returned. -/
theorem sync_save_durable_one_call :
    let file : SnapshotFile := ⟨"metrics.json"⟩
    let v : Service := ⟨some file, false⟩
    let s : ServerState Ledger := ⟨.empty, Disk.withFolder ".", [], 0⟩
    let moves : List (PoolMove (Except Refusal Unit)) :=
      [.start (v.update ⟨"c", .counter 1⟩ none), .turn 0, .turn 0, .turn 0, .turn 0, .turn 0,
        .land 0, .turn 0]
    ((ofState s).run Ledger.store moves).answers = [some (.ok ())] ∧
      ((ofState s).run Ledger.store moves).state.disk.nodes.get? file.path =
        some (.file (SnapshotFile.contents [Metric.ofUpdate ⟨"c", .counter 1⟩])) := by
  intro file v s moves
  have hmoves : ∀ m ∈ moves, v.Writing m := by
    intro m hm
    simp only [moves, List.mem_cons, List.not_mem_nil, or_false] at hm
    rcases hm with rfl | rfl | rfl | rfl | rfl | rfl | rfl | rfl
    · exact .update _ _
    all_goals first | exact .turn 0 | exact .land 0
  have hsaves : ∀ n w, (ofState s).LandsAt moves n w → ∃ disk, w.file.install
      (SnapshotFile.contents w.metrics) ((ofState s).before moves n).state.disk = .ok disk := by
    rintro n w ⟨i, hm, hw⟩
    obtain ⟨rfl, rfl⟩ : n = 6 ∧ i = 0 := by
      rcases n with _ | _ | _ | _ | _ | _ | _ | _ | n <;> cases hm
      exact ⟨rfl, rfl⟩
    have hwrites : (((ofState s).before moves 6).writes[0]?).map FileWrite.file = some file := by
      decide +kernel
    have hdisk : ((ofState s).before moves 6).state.disk = s.disk := by decide +kernel
    have hfree : file.Replaceable s.disk := ⟨by decide +kernel, by decide +kernel⟩
    rw [hw] at hwrites
    rw [hdisk, Option.some.inj hwrites]
    exact ⟨_, SnapshotFile.install_of_replaceable hfree _⟩
  have hanswers : ((ofState s).run Ledger.store moves).answers = [some (.ok ())] := by
    decide +kernel
  have hrecords : ((ofState s).run Ledger.store moves).state.store.toRecords =
      [Metric.ofUpdate ⟨"c", .counter 1⟩] := by decide +kernel
  have hended : ∀ a ∈ ((ofState s).run Ledger.store moves).answers, a ≠ none := by
    rw [hanswers]
    intro a ha
    rw [List.mem_singleton.mp ha]
    exact Option.some_ne_none _
  refine ⟨hanswers, ?_⟩
  rw [← hrecords]
  rcases (sync_save_durable v file rfl s moves hmoves hsaves).2.2.2 hended with h | ⟨-, hsame, -⟩
  · exact h
  · have hempty : s.store.toRecords = [] := rfl
    rw [hsame, hempty] at hrecords
    cases hrecords

end Metering
