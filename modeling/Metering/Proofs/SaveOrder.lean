import Mathlib
import Metering.Proofs.FileReplace
import Metering.Proofs.SaveStages

/-!
In which order saves replace the file.

An export is read under the right to save, and so the reads of two exports never overlap. Its write
lands later, and as long as the task that saves waits for it, nobody else reads: exports that are
waited for land in the order in which they were read. A task that is cancelled while its write is
under way gives the right to save back, but the write still lands. A save that comes in between
reads newer records and may land first; then the older export replaces it (`abandoned_save`).

An `Export` is told by its points: who saves, where the two reads and the handing over are. Nothing
is carried along, so "read before" is an inequality of points.

Results:
1. `Export.holds`, `Export.apart`: an export is read and handed over under the right to save, and of
   two exports the one that is handed over first has also been read first.
2. `Export.exists_pends`: every write under way is an export.
3. `current_at`: the file is the original one, or what was installed last.
4. `saves_in_order_unless_abandoned`: the order in which exports are installed, and what disturbs
   it; `abandoned_save`: it can be disturbed.
-/
namespace Metering

open ServerTask ServerPool

/-- An export by its points: the two reads of its task, and the turn that hands the listing over. -/
structure Export where
  owner : Nat
  gauges : Nat
  counters : Nat
  handed : Nat

namespace ServerPool

variable {α : Type}

/-- At a point, a task hands a write over. -/
def HandsAt (start : ServerPool α Ledger) (moves : List (PoolMove α)) (n : Nat)
    (w : FileWrite) : Prop :=
  moves[n]? = some (.turn w.owner) ∧ w ∉ (start.before moves n).writes ∧
    w ∈ (start.before moves (n + 1)).writes

/-- At a point, a write lands and replaces its file. -/
def InstallsAt (start : ServerPool α Ledger) (moves : List (PoolMove α)) (n : Nat)
    (w : FileWrite) : Prop :=
  start.LandsAt moves n w ∧ ∃ disk, w.file.install (SnapshotFile.contents w.metrics)
    (start.before moves n).state.disk = .ok disk

theorem notMem_writes_of_landsAt {start : ServerPool α Ledger} {moves : List (PoolMove α)}
    (hwrites : start.writes = []) {n : Nat} {w : FileWrite} (h : start.LandsAt moves n w) :
    w ∉ (start.before moves (n + 1)).writes := by
  obtain ⟨i, hm, hi⟩ := h
  rw [before_succ hm]
  show w ∉ ((start.before moves n).land Ledger.store i).writes
  rw [land_eq hi, writes_resume]
  intro hw
  exact ne_owner_of_mem_eraseIdx (nodup_owners hwrites n) hi hw rfl

end ServerPool

namespace Export

variable {α : Type}

section
variable (file : SnapshotFile) (start : ServerPool α Ledger) (moves : List (PoolMove α))

/-- The write of an export: what its two reads show. -/
def write (v : Export) : FileWrite :=
  ⟨v.owner, file, start.shown moves v.gauges v.counters⟩

/-- An export whose write is under way at a point. From its first read until it hands the listing
over, its task takes no other turn than the one that reads the counters. -/
structure Pends (v : Export) (n : Nat) : Prop where
  lists : start.ListsAt moves v.owner v.gauges v.counters
  hands : start.HandsAt moves v.handed (v.write file start moves)
  order : v.counters < v.handed
  alone : ∀ p, v.gauges < p → p < v.handed → moves[p]? = some (.turn v.owner) → p = v.counters
  before : v.handed < n
  waits : ∀ p, v.handed < p → p ≤ n → v.write file start moves ∈ (start.before moves p).writes

/-- At a point, the write of an export that was under way until then replaces the file. -/
def Installed (v : Export) (n : Nat) : Prop :=
  v.Pends file start moves n ∧ start.InstallsAt moves n (v.write file start moves)

end

/-- The task of an export is cancelled after it has handed the listing over, before a point. -/
def LeftBefore (moves : List (PoolMove α)) (v : Export) (point : Nat) : Prop :=
  ∃ p, v.handed < p ∧ p < point ∧ moves[p]? = some (.cancel v.owner)

/-! ## 1. Exports and the right to save -/

section
variable {file : SnapshotFile} {start : ServerPool α Ledger} {moves : List (PoolMove α)}
  {u v : Export} {n : Nat}

theorem Pends.task (h : v.Pends file start moves n) : ∃ next,
    (start.before moves v.handed).tasks[v.owner]? = some (.running (.step
      (.replaceFile file (start.shown moves v.gauges v.counters)) next)) := by
  obtain ⟨hm, hnew, hadded⟩ := h.hands
  rw [before_succ hm] at hadded
  rcases mem_writes_step hadded with hold | ⟨-, next, hnext⟩
  · exact absurd hold hnew
  · exact ⟨next, hnext⟩

theorem Pends.read_lt_handed (h : v.Pends file start moves n) : v.gauges < v.handed :=
  Nat.lt_trans h.lists.order h.order

theorem Pends.event?_handed (h : v.Pends file start moves n) :
    (start.before moves v.handed).event? v.owner = none := by
  obtain ⟨next, hnext⟩ := h.task
  rw [event?, hnext]

/-- One turn hands one write over. -/
theorem Pends.write_unique {m : Nat} (hu : u.Pends file start moves m)
    (hv : v.Pends file start moves n) (heq : u.handed = v.handed) :
    u.write file start moves = v.write file start moves := by
  have hturn := hu.hands.1.symm.trans (heq ▸ hv.hands.1)
  have howner : u.owner = v.owner := PoolMove.turn.inj (Option.some.inj hturn)
  obtain ⟨next, hnext⟩ := hu.task
  obtain ⟨next', hnext'⟩ := hv.task
  rw [← heq, ← howner, hnext] at hnext'
  have htask := PoolTask.running.inj (Option.some.inj hnext')
  have hshown := Option.some.inj (congrArg ServerTask.handed? htask)
  rw [write, write, howner, hshown]

/-- An export that was under way at an earlier point. -/
theorem Pends.earlier (h : v.Pends file start moves n) {m : Nat} (hm : m ≤ n)
    (hhanded : v.handed < m) : v.Pends file start moves m :=
  ⟨h.lists, h.hands, h.order, h.alone, hhanded, fun p hp hpm => h.waits p hp (Nat.le_trans hpm hm)⟩

end

section
variable {file : SnapshotFile} {s : ServerState Ledger} {moves : List (PoolMove α)}
  {u v : Export} {n : Nat}
  (hstarts : ∀ task, .start task ∈ moves → task.SavesWith file)
include hstarts

/-- From its first read until it hands the listing over, an export has the right to save. -/
theorem Pends.holds (h : v.Pends file (ofState s) moves n) {p : Nat} (hg : v.gauges ≤ p)
    (hp : p ≤ v.handed) : ((ofState s).before moves p).holder = some v.owner := by
  obtain ⟨next, hnext⟩ := h.task
  refine holder_between hp ((stands_at hstarts hnext).holder id) fun q hpq hq hturn => ?_
  -- The turns in between are those in which it reads.
  rcases Nat.lt_or_eq_of_le (Nat.le_trans hg hpq) with hgq | rfl
  · obtain rfl := h.alone q hgq hq hturn
    rw [h.lists.counters.2]
    exact Option.some_ne_none _
  · rw [h.lists.gauges.2]
    exact Option.some_ne_none _

/-- Of two exports, the one that is handed over first has been read first. -/
theorem Pends.apart {m : Nat} (hu : u.Pends file (ofState s) moves m)
    (hv : v.Pends file (ofState s) moves n) (hlt : u.handed < v.handed) : u.handed < v.gauges := by
  by_contra hnot
  have hle : v.gauges ≤ u.handed := Nat.le_of_not_lt hnot
  have howner : u.owner = v.owner := by
    have hmine := hu.holds hstarts (Nat.le_of_lt hu.read_lt_handed) (Nat.le_refl _)
    have htheirs := hv.holds hstarts hle (Nat.le_of_lt hlt)
    exact Option.some.inj (hmine.symm.trans htheirs)
  -- It would be a turn of the other one between its first read and its handing over.
  have hquiet := hu.event?_handed
  rw [howner] at hquiet
  rcases Nat.lt_or_eq_of_le hle with hlater | heq
  · have hturn := hu.hands.1
    rw [write, howner] at hturn
    rw [hv.alone _ hlater hlt hturn, hv.lists.counters.2] at hquiet
    cases hquiet
  · rw [← heq, hv.lists.gauges.2] at hquiet
    cases hquiet

/-- While another task reads, the task of an export that is under way has been cancelled. -/
theorem Pends.leftBefore (h : v.Pends file (ofState s) moves n) {k : Nat} {e : StoreEvent}
    (hheld : ((ofState s).before moves n).holder = some k)
    (hreads : ((ofState s).before moves n).event? k = some e) : v.LeftBefore moves n := by
  have hwrite := h.waits n h.before (Nat.le_refl n)
  have hlt : v.owner < ((ofState s).before moves n).tasks.length := owner_lt rfl hwrite
  obtain ⟨t, ht⟩ : ∃ t, ((ofState s).before moves n).tasks[v.owner]? = some t :=
    ⟨_, List.getElem?_eq_getElem hlt⟩
  have hown : ((ofState s).before moves n).HasWrite v.owner := ⟨_, hwrite, rfl⟩
  cases stands_at hstarts ht with
  | cancelled =>
    obtain ⟨next, hnext⟩ := h.task
    obtain ⟨p, hp, hpn, hcancel⟩ := cancelled_between (Nat.le_of_lt h.before) hnext ht
    refine ⟨p, Nat.lt_of_le_of_ne hp ?_, hpn, hcancel⟩
    rintro rfl
    cases h.hands.1.symm.trans hcancel
  | outside _ hnone => exact absurd hown hnone
  | saving _ hnone => exact absurd hown hnone
  | waiting hmine =>
    obtain rfl := Option.some.inj (hmine.symm.trans hheld)
    rw [event?, ht] at hreads
    cases hreads

/-- Of two exports that replace the file, the first one has been read first, or the task of the
second one was cancelled before the first one was read. -/
theorem Installed.order {l l' : Nat} (hu : u.Installed file (ofState s) moves l)
    (hv : v.Installed file (ofState s) moves l') (hlt : l < l') :
    u.counters < v.gauges ∨ v.counters < u.gauges ∧ v.LeftBefore moves u.gauges := by
  rcases Nat.lt_trichotomy u.handed v.handed with hfirst | heq | hsecond
  · exact .inl (Nat.lt_trans hu.1.order (hu.1.apart hstarts hv.1 hfirst))
  · -- The same write would be under way after it has landed.
    refine absurd ?_ (notMem_writes_of_landsAt rfl hu.2.1)
    rw [hu.1.write_unique hv.1 heq]
    exact hv.1.waits (l + 1) (heq ▸ Nat.lt_succ_of_lt hu.1.before) hlt
  · have hbefore : v.handed < u.gauges := hv.1.apart hstarts hu.1 hsecond
    have hread := hu.1.read_lt_handed
    have hearly : u.gauges < l' := Nat.lt_trans (Nat.lt_trans hread hu.1.before) hlt
    have hpends := hv.1.earlier (Nat.le_of_lt hearly) hbefore
    have hheld := hu.1.holds hstarts (Nat.le_refl _) (Nat.le_of_lt hread)
    have hleft := hpends.leftBefore hstarts hheld hu.1.lists.gauges.2
    exact .inr ⟨Nat.lt_trans hv.1.order hbefore, hleft⟩

/-- What is handed over is an export. -/
theorem exists_pends_of_handsAt {w : FileWrite} (h : (ofState s).HandsAt moves n w) :
    ∃ v : Export, v.Pends file (ofState s) moves (n + 1) ∧
      v.write file (ofState s) moves = w := by
  obtain ⟨k, file', ms⟩ := w
  obtain ⟨hm, hold, hw⟩ := h
  have hafter : (ofState s).before moves (n + 1) =
      ((ofState s).before moves n).turn Ledger.store k := before_succ hm
  have hmem := hw
  rw [hafter] at hmem
  rcases mem_writes_step (m := .turn k) hmem with hmem | ⟨-, next, hk⟩
  · exact absurd hmem hold
  · have hstands := stands_at hstarts hk
    generalize htask : ServerTask.step (.replaceFile file' ms) next = task at hstands
    cases hstands with
    | outside _ _ hsaves =>
      subst htask
      exact hsaves.next.elim
    | waiting _ hown =>
      rw [turn_replaceFile hk, if_pos (hasWrite_iff_any.mp hown)] at hafter
      exact absurd (hafter ▸ hw) hold
    | saving _ _ hsaving =>
      cases hsaving with
      | asking => cases congrArg ServerTask.handed? htask
      | counting => cases congrArg ServerTask.handed? htask
      | leaving => cases congrArg ServerTask.handed? htask
      | @handing g c _ _ hlists hlt halone =>
        cases htask
        refine ⟨⟨k, g, c, n⟩, ⟨hlists, ⟨hm, hold, hw⟩, hlt, halone, Nat.lt_succ_self n, ?_⟩, rfl⟩
        intro p hp hpn
        obtain rfl := Nat.le_antisymm hpn hp
        exact hw

/-- Every write that is under way is an export. -/
theorem exists_pends {w : FileWrite} (hw : w ∈ ((ofState s).before moves n).writes) :
    ∃ v : Export, v.Pends file (ofState s) moves n ∧ v.write file (ofState s) moves = w := by
  induction n with
  | zero => cases hw
  | succ n ih =>
    by_cases hold : w ∈ ((ofState s).before moves n).writes
    · obtain ⟨v, h, rfl⟩ := ih hold
      refine ⟨v, ⟨h.lists, h.hands, h.order, h.alone, Nat.lt_succ_of_lt h.before, ?_⟩, rfl⟩
      intro p hp hpn
      rcases Nat.le_succ_iff.mp hpn with hpn | rfl
      · exact h.waits p hp hpn
      · exact hw
    · refine exists_pends_of_handsAt hstarts ⟨?_, hold, hw⟩
      cases hm : moves[n]? with
      | none => exact absurd (before_succ_of_none hm ▸ hw) hold
      | some m =>
        rw [before_succ hm] at hw
        rcases mem_writes_step hw with hw | ⟨rfl, -⟩
        · exact absurd hw hold
        · rfl

theorem exists_installed {w : FileWrite} (h : (ofState s).InstallsAt moves n w) :
    ∃ v : Export, v.Installed file (ofState s) moves n ∧ v.write file (ofState s) moves = w := by
  obtain ⟨i, -, hi⟩ := h.1
  obtain ⟨v, hv, rfl⟩ := exists_pends hstarts (List.mem_of_getElem? hi)
  exact ⟨v, ⟨hv, h⟩, rfl⟩

end

end Export

/-! ## 3. The file -/

namespace ServerPool

variable {α : Type} {start : ServerPool α Ledger} {moves : List (PoolMove α)} {n : Nat}

theorem not_installsAt {m : PoolMove α} (hm : moves[n]? = some m) (hland : ∀ i, m ≠ .land i)
    (w : FileWrite) : ¬ start.InstallsAt moves n w := by
  rintro ⟨⟨i, hi, -⟩, -⟩
  exact hland i (Option.some.inj (hm.symm.trans hi))

/-- A write that lands is the one that is installed, if it can be. -/
theorem installsAt_iff {i : Nat} {v : FileWrite} (hm : moves[n]? = some (.land i))
    (hv : (start.before moves n).writes[i]? = some v) {w : FileWrite} :
    start.InstallsAt moves n w ↔ w = v ∧ ∃ disk, v.file.install (SnapshotFile.contents v.metrics)
      (start.before moves n).state.disk = .ok disk := by
  constructor
  · rintro ⟨⟨j, hj, hw⟩, hinstall⟩
    obtain rfl := PoolMove.land.inj (Option.some.inj (hm.symm.trans hj))
    obtain rfl := Option.some.inj (hv.symm.trans hw)
    exact ⟨rfl, hinstall⟩
  · rintro ⟨rfl, hinstall⟩
    exact ⟨⟨i, hm, hv⟩, hinstall⟩

/-- The disk changes when a write replaces its file, and in no other move. -/
theorem disk_succ (start : ServerPool α Ledger) (moves : List (PoolMove α)) (n : Nat) :
    (∃ w, start.InstallsAt moves n w ∧ (start.before moves (n + 1)).state.disk =
      w.file.put (SnapshotFile.contents w.metrics) (start.before moves n).state.disk) ∨
    (∀ w, ¬ start.InstallsAt moves n w) ∧
      (start.before moves (n + 1)).state.disk = (start.before moves n).state.disk := by
  cases hm : moves[n]? with
  | none =>
    refine .inr ⟨?_, by rw [before_succ_of_none hm]⟩
    rintro w ⟨⟨i, hi, -⟩, -⟩
    cases hm.symm.trans hi
  | some m =>
    rw [before_succ hm]
    cases m with
    | start task => exact .inr ⟨not_installsAt hm nofun, rfl⟩
    | turn k =>
      refine .inr ⟨not_installsAt hm nofun, ?_⟩
      have hturn := turn_cases (start.before moves n) k
      show ((start.before moves n).turn Ledger.store k).state.disk = _
      generalize (start.before moves n).turn Ledger.store k = after at hturn
      cases hturn <;> rfl
    | fail i fault =>
      have hstate := state_step (m := .fail i fault) Ledger.store (start.before moves n) nofun nofun
      exact .inr ⟨not_installsAt hm nofun, congrArg ServerState.disk hstate⟩
    | cancel k =>
      have hstate := state_step (m := .cancel k) Ledger.store (start.before moves n) nofun nofun
      exact .inr ⟨not_installsAt hm nofun, congrArg ServerState.disk hstate⟩
    | land i =>
      show (∃ w, _ ∧ ((start.before moves n).land Ledger.store i).state.disk = _) ∨
        _ ∧ ((start.before moves n).land Ledger.store i).state.disk = _
      cases hv : (start.before moves n).writes[i]? with
      | none =>
        refine .inr ⟨?_, by rw [land, hv]⟩
        rintro w ⟨⟨j, hj, hw⟩, -⟩
        obtain rfl := PoolMove.land.inj (Option.some.inj (hm.symm.trans hj))
        cases hv.symm.trans hw
      | some v =>
        rw [land_eq hv, state_resume]
        cases hinstall : v.file.install (SnapshotFile.contents v.metrics)
            (start.before moves n).state.disk with
        | ok disk =>
          refine .inl ⟨v, (installsAt_iff hm hv).mpr ⟨rfl, disk, hinstall⟩, ?_⟩
          rw [ServerStep.take, hinstall, SnapshotFile.eq_put_of_install hinstall]
        | error e =>
          refine .inr ⟨fun w hw => ?_, by rw [ServerStep.take, hinstall]⟩
          obtain ⟨-, disk, hdisk⟩ := (installsAt_iff hm hv).mp hw
          cases hinstall.symm.trans hdisk

/-- The file is as it was, or as it was installed last. -/
theorem current_at {file : SnapshotFile}
    (hfile : ∀ n w, start.InstallsAt moves n w → w.file = file) (n : Nat) :
    (∀ l < n, ∀ w, ¬ start.InstallsAt moves l w) ∧
      (start.before moves n).state.disk.nodes.get? file.path =
        start.state.disk.nodes.get? file.path ∨
    ∃ l w, l < n ∧ start.InstallsAt moves l w ∧
      (∀ l' w', l < l' → l' < n → ¬ start.InstallsAt moves l' w') ∧
      (start.before moves n).state.disk.nodes.get? file.path =
        some (.file (SnapshotFile.contents w.metrics)) := by
  induction n with
  | zero => exact .inl ⟨fun l hl => absurd hl (Nat.not_lt_zero l), rfl⟩
  | succ n ih =>
    rcases disk_succ start moves n with ⟨w, hinstalls, hdisk⟩ | ⟨hnone, hdisk⟩
    · refine .inr ⟨n, w, Nat.lt_succ_self n, hinstalls, fun l' w' hl hl' => ?_, ?_⟩
      · exact absurd hl (Nat.not_lt.mpr (Nat.le_of_lt_succ hl'))
      · rw [hdisk, ← hfile n w hinstalls]
        exact SnapshotFile.get?_put _ _ _
    · -- Nothing is installed now, so what is said of the past is still so.
      have hlater {P : Nat → Prop} (hpast : ∀ l, P l → l < n → ∀ w, ¬ start.InstallsAt moves l w) :
          ∀ l, P l → l < n + 1 → ∀ w, ¬ start.InstallsAt moves l w := by
        intro l hp hl
        rcases Nat.lt_succ_iff_lt_or_eq.mp hl with hl | rfl
        · exact hpast l hp hl
        · exact hnone
      rw [hdisk]
      rcases ih with ⟨hunset, hsame⟩ | ⟨l, w, hl, hinstalls, hlast, hcontent⟩
      · have hstill := hlater (P := fun _ => True) fun l _ => hunset l
        exact .inl ⟨fun l hl => hstill l trivial hl, hsame⟩
      · have hstill := hlater (P := (l < ·)) fun l' hll' hl' w' => hlast l' w' hll' hl'
        refine .inr ⟨l, w, Nat.lt_succ_of_lt hl, hinstalls, fun l' w' hll' hl' => ?_, hcontent⟩
        exact hstill l' hll' hl' w'

end ServerPool

/-! ## 4. The order of saves -/

open Export in
/-- Any tasks that do nothing with the file but save to it as a whole, in any course of events:
any of them can be cancelled at any point, and any write can fail in its own time.

* What replaces the file is an export: the gauges of one ledger and the counters of a later one,
  read by one task under the right to save and handed over as they were read.
* At every point the file is as it was in the beginning, and nothing has replaced it, or it is the
  export that was installed last.
* Of two exports that are installed, the first one has been read first. Otherwise the task of the
  second one was cancelled while its write was under way, and the first one was read after that.
* If no task is cancelled while its write is under way, exports are installed in the order in which
  they are read, and the file is always the newest one that has been installed. -/
theorem saves_in_order_unless_abandoned {α : Type} (file : SnapshotFile) (s : ServerState Ledger)
    (moves : List (PoolMove α)) (hstarts : ∀ task, .start task ∈ moves → task.SavesWith file) :
    let start : ServerPool α Ledger := .ofState s
    let content (n : Nat) := (start.before moves n).state.disk.nodes.get? file.path
    let listed (v : Export) := SnapshotFile.contents (start.shown moves v.gauges v.counters)
    (∀ n w, start.InstallsAt moves n w →
      ∃ v : Export, v.Installed file start moves n ∧ v.write file start moves = w) ∧
    (∀ n, (∀ l < n, ∀ w, ¬ start.InstallsAt moves l w) ∧
        content n = s.disk.nodes.get? file.path ∨
      ∃ v l, l < n ∧ Installed file start moves v l ∧
        (∀ l' w, l < l' → l' < n → ¬ start.InstallsAt moves l' w) ∧
        content n = some (.file (listed v))) ∧
    (∀ u v l l', Installed file start moves u l → Installed file start moves v l' → l < l' →
      u.counters < v.gauges ∨ v.counters < u.gauges ∧ v.LeftBefore moves u.gauges) ∧
    ((∀ n k, moves[n]? = some (.cancel k) → ¬ (start.before moves n).HasWrite k) →
      (∀ u v l l', Installed file start moves u l → Installed file start moves v l' → l < l' →
        u.counters < v.gauges) ∧
      ∀ n u l, Installed file start moves u l → l < n →
        ∃ v l', Installed file start moves v l' ∧ l ≤ l' ∧ l' < n ∧
          content n = some (.file (listed v)) ∧ (l = l' ∨ u.counters < v.gauges)) := by
  intro start content listed
  have hexports (n : Nat) (w : FileWrite) (h : start.InstallsAt moves n w) :=
    exists_installed hstarts h
  have hfile (n : Nat) (w : FileWrite) (h : start.InstallsAt moves n w) : w.file = file := by
    obtain ⟨v, -, rfl⟩ := hexports n w h
    rfl
  have hcontent (n : Nat) : (∀ l < n, ∀ w, ¬ start.InstallsAt moves l w) ∧
        content n = s.disk.nodes.get? file.path ∨
      ∃ v l, l < n ∧ Installed file start moves v l ∧
        (∀ l' w, l < l' → l' < n → ¬ start.InstallsAt moves l' w) ∧
        content n = some (.file (listed v)) := by
    rcases current_at hfile n with hunset | ⟨l, w, hl, hinstalls, hlast, hcurrent⟩
    · exact .inl hunset
    · obtain ⟨v, hv, rfl⟩ := hexports l w hinstalls
      exact .inr ⟨v, l, hl, hv, hlast, hcurrent⟩
  have horder (u v : Export) (l l' : Nat) (hu : Installed file start moves u l)
      (hv : Installed file start moves v l') (hlt : l < l') := hu.order hstarts hv hlt
  refine ⟨hexports, hcontent, horder, fun hstay => ?_⟩
  have hinOrder (u v : Export) (l l' : Nat) (hu : Installed file start moves u l)
      (hv : Installed file start moves v l') (hlt : l < l') : u.counters < v.gauges := by
    rcases horder u v l l' hu hv hlt with hfirst | ⟨-, p, hp, hpu, hcancel⟩
    · exact hfirst
    · -- The write of the second one would be under way when its task is cancelled.
      have hph : p < u.handed := Nat.lt_trans hpu hu.1.read_lt_handed
      have hpl : p < l' := Nat.lt_trans (Nat.lt_trans hph hu.1.before) hlt
      exact absurd ⟨_, hv.1.waits p hp (Nat.le_of_lt hpl), rfl⟩ (hstay p v.owner hcancel)
  refine ⟨hinOrder, fun n u l hu hl => ?_⟩
  rcases hcontent n with ⟨hunset, -⟩ | ⟨v, l', hl', hv, hlast, hcurrent⟩
  · exact absurd hu.2 (hunset l hl _)
  · have hle : l ≤ l' := Nat.le_of_not_lt fun hlt => hlast l _ hlt hl hu.2
    refine ⟨v, l', hv, hle, hl', hcurrent, ?_⟩
    rcases Nat.lt_or_eq_of_le hle with hlt | heq
    · exact .inr (hinOrder u v l l' hu hv hlt)
    · exact .inl heq

open Export in
/-- A save that waits for the right to save is cancelled while another one is under way. The one
that follows reads the counter that was counted up in the meantime, and installs it. -/
theorem saves_in_order_after_cancelled_wait :
    let file : SnapshotFile := ⟨"metrics.json"⟩
    let save : ServerTask (Except StoreFault Nat) := file.saveTask.map id
    let count : ServerTask (Except StoreFault Nat) :=
      (ofStore (.single (.addCounter "c" 1))).map fun r => r.map fun _ => 0
    let start : ServerPool (Except StoreFault Nat) Ledger :=
      .ofState ⟨.empty, Disk.withFolder ".", [], 0⟩
    let moves : List (PoolMove (Except StoreFault Nat)) :=
      [.start save, .start save, .start save, .start count, .turn 0, .turn 0, .turn 0, .turn 0,
        .cancel 1, .turn 3, .land 0, .turn 0, .turn 2, .turn 2, .turn 2, .turn 2, .land 0]
    ∃ u v : Export, u.Installed file start moves 10 ∧ v.Installed file start moves 16 ∧
      u.write file start moves = ⟨0, file, []⟩ ∧
      v.write file start moves = ⟨2, file, [Metric.ofUpdate ⟨"c", .counter 1⟩]⟩ ∧
      u.counters < v.gauges := by
  intro file save count start moves
  have hstarts : ∀ task, .start task ∈ moves → task.SavesWith file := by
    intro task hm
    simp only [moves, List.mem_cons, List.not_mem_nil, or_false, PoolMove.start.injEq,
      reduceCtorEq] at hm
    rcases hm with rfl | rfl | rfl | rfl
    · exact savesWith_saveTask file id
    · exact savesWith_saveTask file id
    · exact savesWith_saveTask file id
    · exact savesWith_ofStore file _ _
  have hstay : ∀ n k, moves[n]? = some (.cancel k) → ¬ (start.before moves n).HasWrite k := by
    intro n k hm
    have hlt : n < 17 := (List.getElem?_eq_some_iff.mp hm).1
    have hk := List.mem_of_getElem? hm
    simp only [moves, List.mem_cons, List.not_mem_nil, or_false, PoolMove.cancel.injEq,
      reduceCtorEq, false_or] at hk
    subst hk
    have hnone : ∀ n < 17, ((start.before moves n).writes.any fun w => w.owner == 1) = false := by
      decide +kernel
    rw [hasWrite_iff_any, hnone n hlt]
    exact Bool.false_ne_true
  have hfree : ∀ n < 17, file.Replaceable (start.before moves n).state.disk := by
    have hreach : ∀ n < 17,
        (start.before moves n).state.disk.reach (Disk.parent file.path ++ "/.tmp") = .ok () := by
      decide +kernel
    have hplace : ∀ n < 17,
        (start.before moves n).state.disk.nodes.get? file.path ≠ some .folder := by
      decide +kernel
    exact fun n hn => ⟨hreach n hn, hplace n hn⟩
  have hfirst : start.InstallsAt moves 10 ⟨0, file, []⟩ :=
    ⟨⟨0, rfl, by decide +kernel⟩, _, SnapshotFile.install_of_replaceable (hfree 10 (by decide)) _⟩
  have hsecond : start.InstallsAt moves 16 ⟨2, file, [Metric.ofUpdate ⟨"c", .counter 1⟩]⟩ :=
    ⟨⟨0, rfl, by decide +kernel⟩, _, SnapshotFile.install_of_replaceable (hfree 16 (by decide)) _⟩
  obtain ⟨hexports, -, -, horder⟩ := saves_in_order_unless_abandoned file _ moves hstarts
  obtain ⟨u, hu, huw⟩ := hexports 10 _ hfirst
  obtain ⟨v, hv, hvw⟩ := hexports 16 _ hsecond
  exact ⟨u, v, hu, hv, huw, hvw, (horder hstay).1 u v 10 16 hu hv (by decide)⟩

open Export in
/-- A counter goes back in the file. The first save is cancelled while its write is under way. Then
the counter is counted up, and a second save reads it, installs it and ends; and then the write of
the first save lands. -/
theorem abandoned_save :
    let file : SnapshotFile := ⟨"metrics.json"⟩
    let save : ServerTask (Except StoreFault Nat) := file.saveTask.map id
    let count : ServerTask (Except StoreFault Nat) :=
      (ofStore (.single (.addCounter "c" 1))).map fun r => r.map fun _ => 0
    let start : ServerPool (Except StoreFault Nat) Ledger :=
      .ofState ⟨.empty, Disk.withFolder ".", [], 0⟩
    let moves : List (PoolMove (Except StoreFault Nat)) :=
      [.start save, .start count, .start save, .turn 0, .turn 0, .turn 0, .turn 0, .cancel 0,
        .turn 1, .turn 2, .turn 2, .turn 2, .turn 2, .land 1, .turn 2, .land 0]
    let older : Export := ⟨0, 4, 5, 6⟩
    let newer : Export := ⟨2, 10, 11, 12⟩
    let content (n : Nat) := (start.before moves n).state.disk.nodes.get? file.path
    older.counters < newer.gauges ∧ newer.Installed file start moves 13 ∧
      older.Installed file start moves 15 ∧
      (start.run Ledger.store moves).answers = [none, some (.ok 0), some (.ok 1)] ∧
      content 15 = some (.file (SnapshotFile.contents [Metric.ofUpdate ⟨"c", .counter 1⟩])) ∧
      content 16 = some (.file (SnapshotFile.contents [])) := by
  intro file save count start moves older newer content
  have hnewer : newer.Installed file start moves 13 := by
    have hfree : file.Replaceable (start.before moves 13).state.disk :=
      ⟨by decide +kernel, by decide +kernel⟩
    have hlists : start.ListsAt moves 2 10 11 := ⟨⟨rfl, by cbv⟩, ⟨rfl, by cbv⟩, by decide⟩
    refine ⟨⟨hlists, ⟨rfl, by decide +kernel, by decide +kernel⟩,
      by decide, ?_, by decide, ?_⟩, ⟨1, rfl, by decide +kernel⟩, ?_⟩
    · exact fun p hgp hp _ => Nat.le_antisymm (Nat.le_of_lt_succ hp) hgp
    · intro p hp hpn
      obtain rfl := Nat.le_antisymm hpn hp
      decide +kernel
    · exact ⟨_, SnapshotFile.install_of_replaceable hfree _⟩
  have holder : older.Installed file start moves 15 := by
    have hfree : file.Replaceable (start.before moves 15).state.disk :=
      ⟨by decide +kernel, by decide +kernel⟩
    have hwaits : ∀ p < 16, 6 < p →
        older.write file start moves ∈ (start.before moves p).writes := by
      decide +kernel
    have hlists : start.ListsAt moves 0 4 5 := ⟨⟨rfl, by cbv⟩, ⟨rfl, by cbv⟩, by decide⟩
    refine ⟨⟨hlists, ⟨rfl, by decide +kernel, by decide +kernel⟩,
      by decide, ?_, by decide, ?_⟩, ⟨0, rfl, by decide +kernel⟩, ?_⟩
    · exact fun p hgp hp _ => Nat.le_antisymm (Nat.le_of_lt_succ hp) hgp
    · exact fun p hp hpn => hwaits p (Nat.lt_succ_of_le hpn) hp
    · exact ⟨_, SnapshotFile.install_of_replaceable hfree _⟩
  refine ⟨by decide, hnewer, holder, by decide +kernel, ?_, ?_⟩
  · decide +kernel
  · decide +kernel
end Metering
