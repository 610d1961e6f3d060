import Metering.Proofs.ExportReads

/-!
Who has the right to save, and whose writes are under way.

The right to save belongs to a task, and a write that has been handed over belongs to nobody: it
lands even if the task that waits for it is cancelled, and the task's right is free from then on.
So several writes can be under way, each from another task. One of them at most is waited for, by
the task that has the right to save; the tasks of all others have been cancelled.

A move is about one task (`place`), and nothing that is said of another task changes with it.
`Stands` says where a task can be that saves to one file as a whole.

Results:
1. `tasks_other`, `holder_other`, `hasWrite_other`: a move leaves the other tasks alone.
2. `holder_before`, `nodup_owners`: how the right to save is got; one write for every task.
3. `stands_at`: where the tasks are, at every point of every course of events with cancellations.
-/
namespace Metering

open ServerTask

/-- Whatever its steps are answered, the task does nothing with the file but save to it as a
whole. -/
inductive ServerTask.SavesWith (file : SnapshotFile) {α : Type} : ServerTask α → Prop
  | done (a : α) : SavesWith file (.done a)
  | ask {β : Type} {call : StoreCall β} {next : Except StoreFault β → ServerTask α} :
      (∀ r, SavesWith file (next r)) → SavesWith file (.step (.store call) next)
  | publish {ids : List String} {source : String} {next : Unit → ServerTask α} :
      (∀ r, SavesWith file (next r)) → SavesWith file (.step (.publish ids source) next)
  | save {next : Except StoreFault Nat → ServerTask α} : (∀ r, SavesWith file (next r)) →
      SavesWith file (.step .beginSave fun _ => listThen (file.handThen next))

namespace ServerTask

/-- What it says of the next step of a task that it saves as a whole. -/
def SavesNext (file : SnapshotFile) : ServerTask α → Prop
  | .done _ => True
  | .step (.store _) next => ∀ r, SavesWith file (next r)
  | .step (.publish _ _) next => ∀ r, SavesWith file (next r)
  | .step .beginSave next => ∃ rest : Except StoreFault Nat → ServerTask α,
      (∀ r, SavesWith file (rest r)) ∧ next = fun _ => listThen (file.handThen rest)
  | .step (.replaceFile _ _) _ => False
  | .step .endSave _ => False

theorem SavesWith.next {file : SnapshotFile} {task : ServerTask α} (h : task.SavesWith file) :
    task.SavesNext file := by
  cases h with
  | done a => trivial
  | ask hnext => exact hnext
  | publish hnext => exact hnext
  | save hnext => exact ⟨_, hnext, rfl⟩

theorem SavesWith.andThen {file : SnapshotFile} {t : ServerTask α} {next : α → ServerTask β}
    (ht : t.SavesWith file) (hnext : ∀ a, (next a).SavesWith file) :
    (t.andThen next).SavesWith file := by
  induction ht with
  | done a => exact hnext a
  | ask _ ih => exact .ask ih
  | publish _ ih => exact .publish ih
  | save _ ih =>
    rw [← SnapshotFile.saveTask_andThen, andThen_assoc, SnapshotFile.saveTask_andThen]
    exact .save ih

theorem SavesWith.map {file : SnapshotFile} {t : ServerTask α} (ht : t.SavesWith file)
    (f : α → β) : (t.map f).SavesWith file := ht.andThen fun a => .done (f a)

theorem savesWith_saveTask (file : SnapshotFile) (f : Except StoreFault Nat → α) :
    (file.saveTask.map f).SavesWith file := by
  rw [ServerTask.map, SnapshotFile.saveTask_andThen]
  exact .save fun r => .done (f r)

theorem savesWith_ofStore (file : SnapshotFile) (t : StoreTask β) (f : Except StoreFault β → α) :
    ((ofStore t).map f).SavesWith file := by
  induction t with
  | done a => exact .done (f a)
  | ask call next ih => exact .ask ih

end ServerTask

namespace ServerPool

variable {α : Type}

/-- The task that a move is about. -/
def place (pool : ServerPool α Ledger) : PoolMove α → Nat
  | .start _ => pool.tasks.length
  | .turn k => k
  | .land i => (pool.writes[i]?).elim pool.tasks.length FileWrite.owner
  | .fail i _ => (pool.writes[i]?).elim pool.tasks.length FileWrite.owner
  | .cancel k => k

/-- A write of the task is under way. -/
def HasWrite (pool : ServerPool α Ledger) (k : Nat) : Prop := ∃ w ∈ pool.writes, w.owner = k

/-! ## 1. The other tasks -/

section
variable {pool : ServerPool α Ledger} {k j : Nat}

theorem hasWrite_iff_any : pool.HasWrite k ↔ (pool.writes.any fun w => w.owner == k) = true := by
  simp [HasWrite, List.any_eq_true]

theorem place_of_ends {m : PoolMove α} {i : Nat} {w : FileWrite} {outcome : Except StoreFault Unit}
    (h : pool.Ends i w m outcome) (hw : pool.writes[i]? = some w) : pool.place m = w.owner := by
  cases h with
  | lands =>
    rw [place, hw]
    rfl
  | fails fault =>
    rw [place, hw]
    rfl

theorem tasks_resume_other (pool : ServerPool α Ledger) (outcome : Except StoreFault Unit)
    (h : j ≠ k) : (pool.resume k outcome).tasks[j]? = pool.tasks[j]? := by
  unfold resume
  split
  next => exact List.getElem?_set_ne h.symm
  next => rfl

theorem holder_resume (pool : ServerPool α Ledger) (k : Nat) (outcome : Except StoreFault Unit) :
    (pool.resume k outcome).holder = pool.holder := by
  unfold resume
  split <;> rfl

theorem tasks_other {m : PoolMove α} (h : j ≠ pool.place m) :
    (pool.step Ledger.store m).tasks[j]? = pool.tasks[j]? := by
  have hmoved := moved pool m
  generalize pool.step Ledger.store m = after at hmoved
  cases hmoved with
  | nothing => rfl
  | start task =>
    rcases Nat.lt_or_gt_of_ne h with hlt | hgt
    · exact List.getElem?_append_left hlt
    · rw [List.getElem?_eq_none (Nat.le_of_lt hgt), List.getElem?_eq_none]
      rwa [List.length_append]
  | turn hturn =>
    cases hturn with
    | idle => rfl
    | hand => rfl
    | _ => exact List.getElem?_set_ne (Ne.symm h)
  | ending outcome hends hw => exact tasks_resume_other _ outcome (place_of_ends hends hw ▸ h)
  | cancel => exact List.getElem?_set_ne (Ne.symm h)

/-- The task gives the right to save back only if it has it. -/
def LeavesOwn (pool : ServerPool α Ledger) (k : Nat) : Prop :=
  ∀ next, pool.tasks[k]? = some (.running (.step .endSave next)) → pool.holder = some k

theorem holder_other {m : PoolMove α} (hown : pool.LeavesOwn (pool.place m))
    (h : j ≠ pool.place m) :
    (pool.step Ledger.store m).holder = some j ↔ pool.holder = some j := by
  have hmoved := moved pool m
  generalize pool.step Ledger.store m = after at hmoved
  cases hmoved with
  | nothing => exact Iff.rfl
  | start task => exact Iff.rfl
  | @turn k _ hturn =>
    have hne : some k ≠ some j := fun heq => h (Option.some.inj heq).symm
    cases hturn with
    | enter _ hfree =>
      rw [hfree]
      exact ⟨fun heq => absurd heq hne, (nomatch ·)⟩
    | leave hk =>
      rw [hown _ hk]
      exact ⟨(nomatch ·), fun heq => absurd heq hne⟩
    | _ => exact Iff.rfl
  | ending => rw [holder_resume]
  | @cancel k =>
    dsimp only
    split
    next hk =>
      rw [hk]
      exact ⟨(nomatch ·), fun heq => absurd (Option.some.inj heq).symm h⟩
    next => exact Iff.rfl

theorem mem_eraseIdx_of_ne {ws : List FileWrite} {i : Nat} {v w : FileWrite} (hv : ws[i]? = some v)
    (hw : w ∈ ws) (hne : w ≠ v) : w ∈ ws.eraseIdx i := by
  obtain ⟨l, hl⟩ := List.mem_iff_getElem?.mp hw
  refine List.mem_eraseIdx_iff_getElem?.mpr ⟨l, fun heq => hne ?_, hl⟩
  exact Option.some.inj (hl.symm.trans (heq ▸ hv))

/-- A write that another task has handed over is still under way. -/
theorem mem_writes_other {m : PoolMove α} {w : FileWrite} (h : w.owner ≠ pool.place m)
    (hw : w ∈ pool.writes) : w ∈ (pool.step Ledger.store m).writes := by
  have hmoved := moved pool m
  generalize pool.step Ledger.store m = after at hmoved
  cases hmoved with
  | turn hturn =>
    cases hturn with
    | hand => exact List.mem_append_left _ hw
    | _ => exact hw
  | ending outcome hends hv =>
    rw [writes_resume]
    exact mem_eraseIdx_of_ne hv hw fun heq => h (heq ▸ (place_of_ends hends hv).symm)
  | _ => exact hw

theorem hasWrite_other {m : PoolMove α} (h : j ≠ pool.place m) :
    (pool.step Ledger.store m).HasWrite j ↔ pool.HasWrite j := by
  constructor
  · rintro ⟨w, hw, rfl⟩
    rcases mem_writes_step hw with hw | ⟨rfl, -⟩
    · exact ⟨w, hw, rfl⟩
    · exact absurd rfl h
  · rintro ⟨w, hw, rfl⟩
    exact ⟨w, mem_writes_other h hw, rfl⟩

/-! ## 2. The right to save, and one write for every task -/

/-- Who has the right to save had it before, or gets it now. -/
theorem holder_before {m : PoolMove α} (h : (pool.step Ledger.store m).holder = some k) :
    pool.holder = some k ∨
      m = .turn k ∧ ∃ next, pool.tasks[k]? = some (.running (.step .beginSave next)) := by
  have hmoved := moved pool m
  generalize pool.step Ledger.store m = after at hmoved h
  cases hmoved with
  | nothing => exact .inl h
  | start task => exact .inl h
  | turn hturn =>
    cases hturn with
    | enter hj _ =>
      obtain rfl := Option.some.inj h
      exact .inr ⟨rfl, _, hj⟩
    | leave => cases h
    | _ => exact .inl h
  | ending =>
    rw [holder_resume] at h
    exact .inl h
  | cancel =>
    dsimp only at h
    split at h
    next => cases h
    next => exact .inl h

/-- The writes one move later are some of those before, or a task without one hands one over. -/
theorem writes_step (pool : ServerPool α Ledger) (m : PoolMove α) :
    (pool.step Ledger.store m).writes.Sublist pool.writes ∨
    ∃ w, ¬ pool.HasWrite w.owner ∧ (pool.step Ledger.store m).writes = pool.writes ++ [w] := by
  have hmoved := moved pool m
  generalize pool.step Ledger.store m = after at hmoved
  cases hmoved with
  | turn hturn =>
    cases hturn with
    | hand hk hnone =>
      refine .inr ⟨_, ?_, rfl⟩
      rintro ⟨w, hw, hown⟩
      exact hnone w hw hown
    | _ => exact .inl (List.Sublist.refl _)
  | ending =>
    rw [writes_resume]
    exact .inl (List.eraseIdx_sublist _ _)
  | _ => exact .inl (List.Sublist.refl _)

theorem nodup_owners_step (m : PoolMove α) (h : (pool.writes.map FileWrite.owner).Nodup) :
    ((pool.step Ledger.store m).writes.map FileWrite.owner).Nodup := by
  rcases writes_step pool m with hsub | ⟨w, hnone, heq⟩
  · exact h.sublist (hsub.map _)
  · rw [heq, List.map_append, List.map_singleton]
    refine List.nodup_append.mpr ⟨h, List.pairwise_singleton _ _, ?_⟩
    intro a ha b hb heq
    obtain rfl := List.mem_singleton.mp hb
    obtain ⟨v, hv, hown⟩ := List.mem_map.mp ha
    exact hnone ⟨v, hv, hown.trans heq⟩

/-- A task whose write has ended has no other one. -/
theorem ne_owner_of_mem_eraseIdx {ws : List FileWrite} (h : (ws.map FileWrite.owner).Nodup)
    {i : Nat} {v w : FileWrite} (hv : ws[i]? = some v) (hw : w ∈ ws.eraseIdx i) :
    w.owner ≠ v.owner := by
  intro heq
  obtain ⟨l, hne, hl⟩ := List.mem_eraseIdx_iff_getElem?.mp hw
  have howner {a : Nat} {u : FileWrite} (hu : ws[a]? = some u) :
      (ws.map FileWrite.owner)[a]? = some u.owner := by rw [List.getElem?_map, hu]; rfl
  have hlt := (List.getElem?_eq_some_iff.mp (howner hl)).1
  exact hne ((List.getElem?_inj hlt h).mp ((howner hl).trans (heq ▸ (howner hv).symm)))

end

section
variable {start : ServerPool α Ledger} {moves : List (PoolMove α)} {n k : Nat}

theorem holder_lt (hstart : start.holder = none) (h : (start.before moves n).holder = some k) :
    k < (start.before moves n).tasks.length := by
  induction n with
  | zero =>
    rw [before_zero, hstart] at h
    cases h
  | succ n ih =>
    refine Nat.lt_of_lt_of_le ?_ (length_before_le start moves (Nat.le_succ n))
    cases hm : moves[n]? with
    | none => exact ih (before_succ_of_none hm ▸ h)
    | some m =>
      rw [before_succ hm] at h
      rcases holder_before h with h | ⟨-, next, hk⟩
      · exact ih h
      · exact (List.getElem?_eq_some_iff.mp hk).1

theorem nodup_owners (hstart : start.writes = []) (n : Nat) :
    ((start.before moves n).writes.map FileWrite.owner).Nodup := by
  induction n with
  | zero =>
    rw [before_zero, hstart]
    exact List.nodup_nil
  | succ n ih =>
    cases hm : moves[n]? with
    | none => rwa [before_succ_of_none hm]
    | some m =>
      rw [before_succ hm]
      exact nodup_owners_step m ih

/-- A task that only asks the ledger from one point to another has the right to save at the first
one if it has it at the second one. -/
theorem holder_between {m : Nat} (hle : m ≤ n) (hheld : (start.before moves n).holder = some k)
    (hasks : ∀ p, m ≤ p → p < n → moves[p]? = some (.turn k) →
      (start.before moves p).event? k ≠ none) : (start.before moves m).holder = some k := by
  induction n, hle using Nat.le_induction with
  | base => exact hheld
  | succ n hle ih =>
    have hbefore : (start.before moves n).holder = some k := by
      cases hm : moves[n]? with
      | none => rwa [before_succ_of_none hm] at hheld
      | some move =>
        rw [before_succ hm] at hheld
        rcases holder_before hheld with hheld | ⟨rfl, next, hk⟩
        · exact hheld
        · exact absurd (by rw [event?, hk]) (hasks n hle (Nat.lt_succ_self n) hm)
    exact ih hbefore fun p hmp hp => hasks p hmp (Nat.lt_succ_of_lt hp)

/-- A task that is cancelled was cancelled in some move since it was running. -/
theorem cancelled_between {m : Nat} {task : ServerTask α} (hle : m ≤ n)
    (hm : (start.before moves m).tasks[k]? = some (.running task))
    (hn : (start.before moves n).tasks[k]? = some .cancelled) :
    ∃ p, m ≤ p ∧ p < n ∧ moves[p]? = some (.cancel k) := by
  induction n, hle using Nat.le_induction with
  | base => cases hm.symm.trans hn
  | succ n hle ih =>
    have hearlier (h : (start.before moves n).tasks[k]? = some .cancelled) :
        ∃ p, m ≤ p ∧ p < n + 1 ∧ moves[p]? = some (.cancel k) := by
      obtain ⟨p, hmp, hpn, hp⟩ := ih h
      exact ⟨p, hmp, Nat.lt_succ_of_lt hpn, hp⟩
    have hlt : k < (start.before moves n).tasks.length :=
      Nat.lt_of_lt_of_le (List.getElem?_eq_some_iff.mp hm).1 (length_before_le start moves hle)
    obtain ⟨t, ht⟩ : ∃ t, (start.before moves n).tasks[k]? = some t :=
      ⟨_, List.getElem?_eq_getElem hlt⟩
    cases hmove : moves[n]? with
    | none =>
      rw [before_succ_of_none hmove] at hn
      exact hearlier hn
    | some move =>
      obtain ⟨t', ht', hstep⟩ := taskStep_step move ht
      rw [before_succ hmove, ht'] at hn
      obtain rfl := Option.some.inj hn
      cases hstep with
      | same => exact hearlier ht
      | cancelled heq => exact ⟨n, hle, Nat.lt_succ_self n, hmove.trans (congrArg some heq)⟩

end

/-! ## 3. Where the tasks are -/

section
variable (file : SnapshotFile) (start : ServerPool α Ledger) (moves : List (PoolMove α))

/-- Where a task can be that has the right to save and has handed nothing over. While it lists,
it takes no turn but those in which it reads. -/
inductive Saving (n k : Nat) : ServerTask α → Prop
  | asking {next : Except StoreFault Nat → ServerTask α} : (∀ r, (next r).SavesWith file) →
      Saving n k (listThen (file.handThen next))
  | counting {g : Nat} {next : Except StoreFault Nat → ServerTask α} :
      (∀ r, (next r).SavesWith file) →
      start.EventAt moves g k ⟨.gauges, .ok (start.ledgerAt moves g).gauges⟩ → g < n →
      (∀ p, g < p → p < n → moves[p]? ≠ some (.turn k)) →
      Saving n k (countThen (start.ledgerAt moves g).gauges (file.handThen next))
  | handing {g c : Nat} {next : Except StoreFault Nat → ServerTask α} :
      (∀ r, (next r).SavesWith file) → start.ListsAt moves k g c → c < n →
      (∀ p, g < p → p < n → moves[p]? = some (.turn k) → p = c) →
      Saving n k (file.handThen next (.ok (start.shown moves g c)))
  | leaving {task : ServerTask α} : task.SavesWith file →
      Saving n k (.step .endSave fun _ => task)

/-- Where a task can be. A write of its own is under way only while it waits for it, and after it
has been cancelled. -/
inductive Stands (n k : Nat) : PoolTask α → Prop
  | cancelled : (start.before moves n).holder ≠ some k → Stands n k .cancelled
  | outside {task : ServerTask α} : (start.before moves n).holder ≠ some k →
      ¬ (start.before moves n).HasWrite k → task.SavesWith file → Stands n k (.running task)
  | saving {task : ServerTask α} : (start.before moves n).holder = some k →
      ¬ (start.before moves n).HasWrite k → Saving file start moves n k task →
      Stands n k (.running task)
  | waiting {ms : List Metric} {next : Except StoreFault Nat → ServerTask α} :
      (start.before moves n).holder = some k → (start.before moves n).HasWrite k →
      (∀ r, (next r).SavesWith file) → Stands n k (.running (file.handThen next (.ok ms)))

end

section
variable {file : SnapshotFile} {start : ServerPool α Ledger} {moves : List (PoolMove α)}
  {n k : Nat} {t t' : PoolTask α}

theorem Saving.succ {task : ServerTask α} (h : Saving file start moves n k task)
    (hturn : moves[n]? ≠ some (.turn k)) : Saving file start moves (n + 1) k task := by
  cases h with
  | asking hnext => exact .asking hnext
  | counting hnext hg hlt halone =>
    refine .counting hnext hg (Nat.lt_succ_of_lt hlt) fun p hgp hp => ?_
    rcases Nat.lt_succ_iff_lt_or_eq.mp hp with hp | rfl
    · exact halone p hgp hp
    · exact hturn
  | handing hnext hlists hlt halone =>
    refine .handing hnext hlists (Nat.lt_succ_of_lt hlt) fun p hgp hp hm => ?_
    rcases Nat.lt_succ_iff_lt_or_eq.mp hp with hp | rfl
    · exact halone p hgp hp hm
    · exact absurd hm hturn
  | leaving htask => exact .leaving htask

/-- A move that does not concern a task. -/
theorem Stands.succ (h : Stands file start moves n k t)
    (hholder : (start.before moves (n + 1)).holder = some k ↔
      (start.before moves n).holder = some k)
    (hwrite : (start.before moves (n + 1)).HasWrite k ↔ (start.before moves n).HasWrite k)
    (hturn : moves[n]? ≠ some (.turn k)) : Stands file start moves (n + 1) k t := by
  cases h with
  | cancelled hfree => exact .cancelled (mt hholder.mp hfree)
  | outside hfree hnone htask => exact .outside (mt hholder.mp hfree) (mt hwrite.mp hnone) htask
  | saving hheld hnone hsaving =>
    exact .saving (hholder.mpr hheld) (mt hwrite.mp hnone) (hsaving.succ hturn)
  | waiting hheld hown hnext => exact .waiting (hholder.mpr hheld) (hwrite.mpr hown) hnext

/-- Only a task that has the right to save does what no task does outside of a save. -/
theorem Stands.holder {task : ServerTask α} (h : Stands file start moves n k (.running task))
    (hnext : ¬ task.SavesNext file) : (start.before moves n).holder = some k := by
  cases h with
  | outside _ _ htask => exact absurd htask.next hnext
  | saving hheld => exact hheld
  | waiting hheld => exact hheld

theorem leavesOwn_of_stands
    (h : ∀ t, (start.before moves n).tasks[k]? = some t → Stands file start moves n k t) :
    (start.before moves n).LeavesOwn k :=
  fun _ hk => (h _ hk).holder id

/-- A turn of the task. -/
theorem Stands.turn (h : Stands file start moves n k t) (hm : moves[n]? = some (.turn k))
    (ht : (start.before moves n).tasks[k]? = some t)
    (ht' : (start.before moves (n + 1)).tasks[k]? = some t') :
    Stands file start moves (n + 1) k t' := by
  have hafter : start.before moves (n + 1) = (start.before moves n).turn Ledger.store k :=
    before_succ hm
  have hk : k < (start.before moves n).tasks.length := (List.getElem?_eq_some_iff.mp ht).1
  have hself {u : PoolTask α} : ((start.before moves n).tasks.set k u)[k]? = some u :=
    List.getElem?_set_self hk
  cases h with
  | cancelled hfree =>
    have hpool : start.before moves (n + 1) = start.before moves n := by
      rw [hafter, ServerPool.turn, ht]
    rw [hpool, ht] at ht'
    obtain rfl := Option.some.inj ht'
    exact .cancelled (hpool ▸ hfree)
  | outside hfree hnone htask =>
    cases htask with
    | done a =>
      rw [turn_of_done ht] at hafter
      rw [hafter, ht] at ht'
      obtain rfl := Option.some.inj ht'
      exact .outside (hafter ▸ hfree) (hafter ▸ hnone) (.done a)
    | ask hnext =>
      rw [turn_store ht] at hafter
      rw [hafter] at ht'
      obtain rfl := Option.some.inj (hself.symm.trans ht')
      refine .outside ?_ ?_ (hnext _)
      · rwa [hafter]
      · rwa [hafter]
    | publish hnext =>
      rw [turn_publish ht] at hafter
      rw [hafter] at ht'
      obtain rfl := Option.some.inj (hself.symm.trans ht')
      refine .outside ?_ ?_ (hnext _)
      · rwa [hafter]
      · rwa [hafter]
    | save hnext =>
      rw [turn_beginSave ht] at hafter
      split at hafter
      next =>
        rw [hafter] at ht'
        obtain rfl := Option.some.inj (hself.symm.trans ht')
        refine .saving ?_ ?_ (.asking hnext)
        · rw [hafter]
        · rwa [hafter]
      next =>
        rw [hafter, ht] at ht'
        obtain rfl := Option.some.inj ht'
        exact .outside (hafter ▸ hfree) (hafter ▸ hnone) (.save hnext)
  | saving hheld hnone hsaving =>
    cases hsaving with
    | asking hnext =>
      have hevent : start.EventAt moves n k ⟨.gauges, .ok (start.ledgerAt moves n).gauges⟩ :=
        ⟨hm, event?_of_store ht⟩
      rw [turn_store ht] at hafter
      rw [hafter] at ht'
      obtain rfl := Option.some.inj (hself.symm.trans ht')
      refine .saving ?_ ?_ (.counting hnext hevent (Nat.lt_succ_self n) fun p hnp hp => ?_)
      · rwa [hafter]
      · rwa [hafter]
      · exact absurd hnp (Nat.not_lt.mpr (Nat.le_of_lt_succ hp))
    | @counting g next hnext hgauges hlt halone =>
      have hevent : start.EventAt moves n k ⟨.counters, .ok (start.ledgerAt moves n).counters⟩ :=
        ⟨hm, event?_of_store ht⟩
      rw [turn_store ht] at hafter
      rw [hafter] at ht'
      obtain rfl := Option.some.inj (hself.symm.trans ht')
      have hlists : start.ListsAt moves k g n := ⟨hgauges, hevent, hlt⟩
      refine .saving ?_ ?_ (.handing hnext hlists (Nat.lt_succ_self n) fun p hgp hp hturn => ?_)
      · rwa [hafter]
      · rwa [hafter]
      · rcases Nat.lt_succ_iff_lt_or_eq.mp hp with hp | rfl
        · exact absurd hturn (halone p hgp hp)
        · rfl
    | handing hnext =>
      rw [turn_replaceFile ht, if_neg (mt hasWrite_iff_any.mpr hnone)] at hafter
      rw [hafter, ht] at ht'
      obtain rfl := Option.some.inj ht'
      refine .waiting ?_ ?_ hnext
      · rwa [hafter]
      · rw [hafter]
        exact ⟨_, List.mem_append_right _ (List.mem_singleton_self _), rfl⟩
    | leaving htask =>
      rw [turn_endSave ht] at hafter
      rw [hafter] at ht'
      obtain rfl := Option.some.inj (hself.symm.trans ht')
      refine .outside ?_ ?_ htask
      · rw [hafter]
        exact Option.some_ne_none _ ∘ Eq.symm
      · rwa [hafter]
  | waiting hheld hown hnext =>
    rw [turn_replaceFile ht, if_pos (hasWrite_iff_any.mp hown)] at hafter
    rw [hafter, ht] at ht'
    obtain rfl := Option.some.inj ht'
    exact .waiting (hafter ▸ hheld) (hafter ▸ hown) hnext

/-- The write of the task ends, with whatever outcome. -/
theorem Stands.ending {i : Nat} {w : FileWrite} {s : ServerState Ledger}
    {outcome : Except StoreFault Unit} (h : Stands file start moves n w.owner t)
    (hnodup : ((start.before moves n).writes.map FileWrite.owner).Nodup)
    (hw : (start.before moves n).writes[i]? = some w)
    (hafter : start.before moves (n + 1) = { start.before moves n with
      state := s, writes := (start.before moves n).writes.eraseIdx i }.resume w.owner outcome)
    (ht : (start.before moves n).tasks[w.owner]? = some t)
    (ht' : (start.before moves (n + 1)).tasks[w.owner]? = some t') :
    Stands file start moves (n + 1) w.owner t' := by
  have hown : (start.before moves n).HasWrite w.owner := ⟨w, List.mem_of_getElem? hw, rfl⟩
  have hk : w.owner < (start.before moves n).tasks.length := (List.getElem?_eq_some_iff.mp ht).1
  rw [resume, ht] at hafter
  cases h with
  | cancelled hfree =>
    rw [hafter] at ht'
    obtain rfl := Option.some.inj (ht.symm.trans ht')
    refine .cancelled ?_
    rwa [hafter]
  | outside _ hnone => exact absurd hown hnone
  | saving _ hnone => exact absurd hown hnone
  | waiting hheld _ hnext =>
    rw [hafter] at ht'
    obtain rfl := Option.some.inj ((List.getElem?_set_self hk).symm.trans ht')
    refine .saving ?_ ?_ (.leaving (hnext _))
    · rwa [hafter]
    · rw [hafter]
      rintro ⟨v, hv, hsame⟩
      exact ne_owner_of_mem_eraseIdx hnodup hw hv hsame

/-- The task is cancelled. -/
theorem stands_cancelled (hk : k < (start.before moves n).tasks.length)
    (hafter : start.before moves (n + 1) = { (start.before moves n).setTask k .cancelled with
      holder := if (start.before moves n).holder = some k then none
        else (start.before moves n).holder })
    (ht' : (start.before moves (n + 1)).tasks[k]? = some t') :
    Stands file start moves (n + 1) k t' := by
  rw [hafter] at ht'
  obtain rfl := Option.some.inj ((List.getElem?_set_self hk).symm.trans ht')
  refine .cancelled ?_
  rw [hafter]
  dsimp only
  split
  next => exact Option.some_ne_none _ ∘ Eq.symm
  next hother => exact hother

/-- The task is started. -/
theorem stands_started (hholder : start.holder = none) (hwrites : start.writes = [])
    {task : ServerTask α} (htask : task.SavesWith file) (hm : moves[n]? = some (.start task))
    (hk : (start.before moves n).tasks.length = k)
    (ht' : (start.before moves (n + 1)).tasks[k]? = some t') :
    Stands file start moves (n + 1) k t' := by
  obtain rfl := Option.some.inj ((task_of_startsAt ⟨hm, hk⟩).symm.trans ht')
  have hafter : start.before moves (n + 1) =
      (start.before moves n).step Ledger.store (.start task) := before_succ hm
  -- Nobody with this number has done anything yet.
  refine .outside ?_ ?_ htask
  · rw [hafter]
    intro hheld
    exact absurd (holder_lt hholder hheld) (hk ▸ Nat.lt_irrefl _)
  · rw [hafter]
    rintro ⟨w, hw, hown⟩
    exact absurd (owner_lt hwrites hw) (hown ▸ hk ▸ Nat.lt_irrefl _)

/-- One move. -/
theorem stands_succ (hholder : start.holder = none) (hwrites : start.writes = [])
    (hstarts : ∀ task, .start task ∈ moves → task.SavesWith file)
    (h : ∀ k t, (start.before moves n).tasks[k]? = some t → Stands file start moves n k t)
    (ht' : (start.before moves (n + 1)).tasks[k]? = some t') :
    Stands file start moves (n + 1) k t' := by
  cases hm : moves[n]? with
  | none =>
    have hpool : start.before moves (n + 1) = start.before moves n := before_succ_of_none hm
    rw [hpool] at ht'
    refine (h k t' ht').succ ?_ ?_ ?_
    · rw [hpool]
    · rw [hpool]
    · rw [hm]
      exact (nomatch ·)
  | some m =>
    have hafter : start.before moves (n + 1) = (start.before moves n).step Ledger.store m :=
      before_succ hm
    by_cases hk : k = (start.before moves n).place m
    · have hmoved := moved (start.before moves n) m
      rw [← hafter] at hmoved
      generalize hlater : start.before moves (n + 1) = later at hmoved
      cases hmoved with
      | nothing hturn =>
        rw [hlater] at ht'
        refine (h k t' ht').succ ?_ ?_ fun heq => ?_
        · rw [hlater]
        · rw [hlater]
        · exact hturn k (Option.some.inj (hm.symm.trans heq))
      | start task =>
        have htask := hstarts task (List.mem_of_getElem? hm)
        exact stands_started hholder hwrites htask hm hk.symm ht'
      | @turn j _ _ =>
        obtain rfl : k = j := hk
        cases ht : (start.before moves n).tasks[k]? with
        | none =>
          rw [hafter, step, ServerPool.turn, ht, ht] at ht'
          cases ht'
        | some t => exact (h k t ht).turn hm ht ht'
      | ending outcome hends hw =>
        obtain rfl := hk.trans (place_of_ends hends hw)
        have hlt := owner_lt hwrites (List.mem_of_getElem? hw)
        have ht := List.getElem?_eq_getElem hlt
        exact (h _ _ ht).ending (nodup_owners hwrites n) hw hlater ht ht'
      | cancel ht hrunning =>
        obtain rfl := hk
        exact stands_cancelled (List.getElem?_eq_some_iff.mp ht).1 hlater ht'
    · rw [hafter, tasks_other hk] at ht'
      refine (h k t' ht').succ ?_ ?_ ?_
      · rw [hafter]
        exact holder_other (leavesOwn_of_stands (h _)) hk
      · rw [hafter]
        exact hasWrite_other hk
      · rw [hm]
        rintro heq
        obtain rfl := Option.some.inj heq
        exact hk rfl

/-- Where the tasks are at every point. -/
theorem stands_at {s : ServerState Ledger}
    (hstarts : ∀ task, .start task ∈ moves → task.SavesWith file)
    (ht : ((ofState s).before moves n).tasks[k]? = some t) :
    Stands file (ofState s) moves n k t := by
  induction n generalizing k t with
  | zero => cases ht
  | succ n ih => exact stands_succ rfl rfl hstarts (fun _ _ => ih) ht

end
end ServerPool
end Metering
