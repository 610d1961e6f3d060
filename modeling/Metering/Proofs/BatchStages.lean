import Metering.Proofs.Chaining
import Metering.Proofs.ServiceRuns

/-!
A batch as it is carried out, and as a sequence of updates.

While the counters of a batch are added up, their totals are kept apart from the ledger: a counter
stands at its staged total once it has one, and till then where the ledger has it. Only when every
total is known are the readings of the gauges put in place, and the totals are written back in
whatever order they come. A sequence of updates writes each of them at once and stops at the first
that is refused. The two cannot be told apart, except that a batch that is refused leaves nothing.

Results:
1. `Table.Overlays.putAll_perm`: staged entries are written back with one outcome, in any order.
2. `Ledger.stage_of_stageApart`: totals that are kept apart are the totals of the store's own batch.
3. `StoreTask.run_applyEach`, `StoreTask.run_applyEach_eq_error_iff`: what a sequence leaves.
4. `Ledger.batch_is_sequence`: a batch is its sequence, or nothing.
-/
namespace Metering

/-! ## 1. Staged entries -/

namespace Table

/-- The table with entries put one after another. -/
def putAll (t : Table α) (es : List (String × α)) : Table α :=
  es.foldl (fun t e => t.put e.1 e.2) t

/-- A table shows what is staged for a name, and what lies beneath where nothing is staged. -/
def Overlays (shown beneath staged : Table α) : Prop :=
  ∀ key, shown.get? key = (staged.get? key).or (beneath.get? key)

/-- A name that is put, always with one value, is found with it. -/
theorem get?_putAll (t : Table α) {es : List (String × α)} {key : String} {found : Option α}
    (h : ∀ v, (key, v) ∈ es → found = some v) :
    (t.putAll es).get? key = if key ∈ es.map Prod.fst then found else t.get? key := by
  induction es generalizing t with
  | nil => rfl
  | cons e es ih =>
    obtain ⟨k, v⟩ := e
    show ((t.put k v).putAll es).get? key = _
    rw [ih (t.put k v) fun v' hv' => h v' (List.mem_cons_of_mem _ hv'), List.map_cons]
    by_cases hmem : key ∈ es.map Prod.fst
    · rw [if_pos hmem, if_pos (List.mem_cons_of_mem _ hmem)]
    · rw [if_neg hmem]
      by_cases hkey : key = k
      · subst hkey
        rw [if_pos List.mem_cons_self, get?_put_self, h v List.mem_cons_self]
      · rw [if_neg (by simp [hkey, hmem]), get?_put_of_ne t hkey]

namespace Overlays

variable {shown beneath staged : Table α}

theorem start (t : Table α) : Overlays t t empty := fun key => by
  rw [get?_empty, Option.none_or]

theorem put (h : Overlays shown beneath staged) (key : String) (value : α) :
    Overlays (shown.put key value) beneath (staged.put key value) := by
  intro other
  by_cases hkey : other = key
  · rw [hkey, get?_put_self, get?_put_self, Option.some_or]
  · rw [get?_put_of_ne _ hkey, get?_put_of_ne _ hkey, h other]

/-- Staged entries come to what they showed, in whatever order they are written back. -/
theorem putAll_perm (h : Overlays shown beneath staged) {order : List (String × α)}
    (horder : order.Perm staged.entries) : beneath.putAll order = shown := by
  have hmem (key : String) (v : α) : (key, v) ∈ order ↔ staged.get? key = some v := by
    rw [horder.mem_iff, get?_eq_some_iff]
  refine ext_get? fun key => ?_
  rw [get?_putAll beneath fun v hv => (hmem key v).mp hv, h key]
  cases hstaged : staged.get? key with
  | none =>
    have hkey : key ∉ order.map Prod.fst := by
      intro hin
      obtain ⟨e, he, rfl⟩ := List.mem_map.mp hin
      cases hstaged.symm.trans ((hmem e.1 e.2).mp he)
    rw [if_neg hkey, Option.none_or]
  | some value =>
    have hkey : key ∈ order.map Prod.fst := List.mem_map_of_mem ((hmem key value).mpr hstaged)
    rw [if_pos hkey, Option.some_or]

end Overlays
end Table

/-! ## 2. Totals kept apart -/

namespace Ledger

/-- The sum of a counter and a difference, if it is within the range of counters. -/
def sumOf (id : String) (current delta : Int64) : Except StoreFault Int64 :=
  match Counter.add? current delta with
  | some sum => .ok sum
  | none => .error (.overflow id current delta)

/-- Where a counter stands in the middle of a batch. -/
def standing (counters staged : Table Int64) (id : String) : Int64 :=
  match staged.get? id with
  | some total => total
  | none => (counters.get? id).getD 0

/-- The totals of a batch, added up in order beside the counters of the ledger. -/
def stageApart (counters staged : Table Int64) : List Update → Except StoreFault (Table Int64)
  | [] => .ok staged
  | u :: us =>
    match u.value with
    | .gauge _ => stageApart counters staged us
    | .counter d =>
      match sumOf u.id (standing counters staged u.id) d with
      | .ok sum => stageApart counters (staged.put u.id sum) us
      | .error e => .error e

/-- How a batch that is carried out in two passes can end: its answer and the ledger it leaves. The
order in which the totals are written back is left open. -/
inductive BatchEnds (l : Ledger) (us : List Update) : Except StoreFault Unit × Ledger → Prop
  | refused {e : StoreFault} : stageApart l.counters .empty us = .error e →
    BatchEnds l us (.error e, l)
  | written {staged : Table Int64} {order : List (String × Int64)} :
    stageApart l.counters .empty us = .ok staged → order.Perm staged.entries →
    BatchEnds l us (.ok (), ⟨putGauges l.gauges us, l.counters.putAll order⟩)

theorem total_of_overlays {shown counters staged : Table Int64}
    (h : shown.Overlays counters staged) (id : String) (d : Int64) :
    total shown id d = sumOf id (standing counters staged id) d := by
  have hcurrent : (shown.get? id).getD 0 = standing counters staged id := by
    rw [h id, standing]
    cases staged.get? id <;> rfl
  rw [← hcurrent]
  rfl

/-- Totals that are kept apart overlay the counters as the totals of the store's own batch do, and
both are refused alike. -/
theorem stage_of_stageApart {shown counters staged : Table Int64}
    (h : shown.Overlays counters staged) (us : List Update) :
    match stageApart counters staged us with
    | .ok staged' => ∃ shown', stage shown us = .ok shown' ∧ shown'.Overlays counters staged'
    | .error e => stage shown us = .error e := by
  induction us generalizing shown staged with
  | nil => exact ⟨shown, rfl, h⟩
  | cons u us ih =>
    obtain ⟨id, value⟩ := u
    cases value with
    | gauge x => exact ih h
    | counter d =>
      simp only [stageApart, stage, total_of_overlays h]
      cases sumOf id (standing counters staged id) d with
      | error e => rfl
      | ok sum => exact ih (h.put id sum)

theorem answer_batch (l : Ledger) (us : List Update) :
    store.call (.batch us) l =
      match stage l.counters us with
      | .ok counters => (.ok (), ⟨putGauges l.gauges us, counters⟩)
      | .error e => (.error e, l) := by
  show answer (.batch us) l = _
  simp only [answer, applyAll]
  cases stage l.counters us <;> rfl

/-- A batch has one ending, and it is the answer of the store. -/
theorem batchEnds_iff (l : Ledger) (us : List Update) (ending : Except StoreFault Unit × Ledger) :
    BatchEnds l us ending ↔ ending = store.call (.batch us) l := by
  have hstages := stage_of_stageApart (.start l.counters) us
  rw [answer_batch]
  constructor
  · intro h
    cases h with
    | refused he =>
      rw [he] at hstages
      rw [hstages]
    | written hstaged horder =>
      rw [hstaged] at hstages
      obtain ⟨counters, hstage, hoverlays⟩ := hstages
      rw [hstage, hoverlays.putAll_perm horder]
  · rintro rfl
    cases hstaged : stageApart l.counters .empty us with
    | error e =>
      rw [hstaged] at hstages
      rw [hstages]
      exact .refused hstaged
    | ok staged =>
      rw [hstaged] at hstages
      obtain ⟨counters, hstage, hoverlays⟩ := hstages
      rw [hstage, ← hoverlays.putAll_perm (.refl _)]
      exact .written hstaged (.refl _)

end Ledger

/-! ## 3. Sequences of updates -/

namespace StoreTask

/-- Updates one after another, up to the first that is refused. -/
def applyEach : List Update → StoreTask Unit
  | [] => .done (.ok ())
  | u :: us => (apply u).andThen fun _ => applyEach us

theorem run_andThen (store : Store σ) (t : StoreTask α) (next : α → StoreTask β) (s : σ) :
    (t.andThen next).run store s =
      match t.run store s with
      | (.ok a, s') => (next a).run store s'
      | (.error e, s') => (.error e, s') := by
  induction t generalizing s with
  | done answer => cases answer <;> rfl
  | ask c k ih => exact ih _ _

theorem run_applyEach_cons (u : Update) (us : List Update) (l : Ledger) :
    (applyEach (u :: us)).run Ledger.store l =
      match l.apply u with
      | .ok l' => (applyEach us).run Ledger.store l'
      | .error e => (.error e, l) := by
  rw [applyEach, run_andThen, run_apply]
  cases l.apply u <;> rfl

/-- A sequence is answered as the fold of its updates, and if that is accepted it leaves it. -/
theorem run_applyEach (us : List Update) (l : Ledger) :
    match us.foldlM Ledger.apply l with
    | .ok l' => (applyEach us).run Ledger.store l = (.ok (), l')
    | .error e => ∃ before, (applyEach us).run Ledger.store l = (.error e, before) := by
  induction us generalizing l with
  | nil => rfl
  | cons u us ih =>
    rw [List.foldlM_cons, run_applyEach_cons]
    cases hu : l.apply u with
    | error e => exact ⟨l, rfl⟩
    | ok m => exact ih m

theorem run_applyEach_append (front back : List Update) (l : Ledger) :
    (applyEach (front ++ back)).run Ledger.store l =
      match (applyEach front).run Ledger.store l with
      | (.ok (), before) => (applyEach back).run Ledger.store before
      | (.error e, before) => (.error e, before) := by
  induction front generalizing l with
  | nil => rfl
  | cons u front ih =>
    rw [List.cons_append, run_applyEach_cons, run_applyEach_cons]
    cases l.apply u with
    | error e => rfl
    | ok m => exact ih m

/-- The first update of a list that is refused, alone: those in front of it were accepted one after
another and left the ledger `before`, in which the sum that it asks for is out of range. -/
def RefusedAt (l : Ledger) (us : List Update) (fault : StoreFault) (before : Ledger) : Prop :=
  ∃ front id delta back, us = front ++ ⟨id, .counter delta⟩ :: back ∧
    (applyEach front).run Ledger.store l = (.ok (), before) ∧
    (apply ⟨id, .counter delta⟩).run Ledger.store before = (.error fault, before) ∧
    fault = .overflow id ((before.counters.get? id).getD 0) delta

theorem overflow_of_apply_error {l : Ledger} {u : Update} {e : StoreFault}
    (h : l.apply u = .error e) :
    ∃ delta, u.value = .counter delta ∧ e = .overflow u.id ((l.counters.get? u.id).getD 0) delta := by
  obtain ⟨id, value⟩ := u
  cases value with
  | gauge x => cases h
  | counter d =>
    refine ⟨d, rfl, ?_⟩
    cases htotal : Ledger.total l.counters id d with
    | ok sum =>
      rw [Ledger.apply_counter_ok htotal] at h
      cases h
    | error e' =>
      rw [Ledger.apply_counter_error htotal] at h
      obtain rfl := Except.error.inj h
      unfold Ledger.total at htotal
      dsimp only at htotal
      split at htotal
      next => cases htotal
      next => exact (Except.error.inj htotal).symm

/-- A sequence fails with the fault of the first update that is refused, and leaves what the updates
in front of it left. -/
theorem run_applyEach_eq_error_iff {l before : Ledger} {us : List Update} {fault : StoreFault} :
    (applyEach us).run Ledger.store l = (.error fault, before) ↔ RefusedAt l us fault before := by
  constructor
  · intro h
    induction us generalizing l with
    | nil => cases h
    | cons u us ih =>
      rw [run_applyEach_cons] at h
      cases hu : l.apply u with
      | error e =>
        rw [hu] at h
        obtain ⟨hfault, rfl⟩ := Prod.mk.inj h
        obtain rfl := Except.error.inj hfault
        obtain ⟨id, value⟩ := u
        obtain ⟨delta, rfl, hoverflow⟩ := overflow_of_apply_error hu
        refine ⟨[], id, delta, us, rfl, rfl, ?_, hoverflow⟩
        rw [run_apply, hu]
      | ok m =>
        rw [hu] at h
        obtain ⟨front, id, delta, back, rfl, hfront, hrefused, hoverflow⟩ := ih h
        refine ⟨u :: front, id, delta, back, rfl, ?_, hrefused, hoverflow⟩
        rw [run_applyEach_cons, hu]
        exact hfront
  · rintro ⟨front, id, delta, back, rfl, hfront, hrefused, -⟩
    rw [run_apply] at hrefused
    rw [run_applyEach_append, hfront]
    show (applyEach _).run Ledger.store before = _
    rw [run_applyEach_cons]
    cases hu : before.apply ⟨id, .counter delta⟩ with
    | ok m =>
      rw [hu] at hrefused
      cases hrefused
    | error e =>
      rw [hu] at hrefused
      exact hrefused

end StoreTask

/-! ## 4. A batch and its sequence -/

namespace Ledger

open StoreTask

/-- What a batch leaves is what the sequence of its updates leaves, if none of them is refused. -/
theorem call_batch_eq (l : Ledger) (us : List Update) :
    store.call (.batch us) l =
      match (applyEach us).run store l with
      | (.ok (), after) => (.ok (), after)
      | (.error e, _) => (.error e, l) := by
  have hbatch : store.call (.batch us) l =
      match us.foldlM apply l with
      | .ok l' => (.ok (), l')
      | .error e => (.error e, l) := run_batch us l
  have hsequence := run_applyEach us l
  cases hfold : us.foldlM apply l with
  | ok l' =>
    rw [hfold] at hbatch hsequence
    rw [hbatch, hsequence]
  | error e =>
    rw [hfold] at hbatch hsequence
    obtain ⟨before, hsequence⟩ := hsequence
    rw [hbatch, hsequence]

/-- A batch is the sequence of its updates or nothing, for every ledger and every list.

* However the totals are staged and written back, the batch ends as the store says.
* It is accepted exactly if each update of the sequence is, and then it leaves what these leave.
* It is refused exactly if the sequence is, with the same fault, and then it leaves the ledger as
  it was.
* That fault is the one of the first update that is refused, and it names the id, the total at which
  the updates in front of it left the counter, and the difference. -/
theorem batch_is_sequence (l : Ledger) (us : List Update) :
    (∀ ending, BatchEnds l us ending ↔ ending = store.call (.batch us) l) ∧
    (∀ after, store.call (.batch us) l = (.ok (), after) ↔
      (applyEach us).run store l = (.ok (), after)) ∧
    (∀ fault after, store.call (.batch us) l = (.error fault, after) ↔
      after = l ∧ ∃ before, (applyEach us).run store l = (.error fault, before)) ∧
    (∀ fault before, (applyEach us).run store l = (.error fault, before) ↔
      RefusedAt l us fault before) := by
  refine ⟨batchEnds_iff l us, ?_, ?_, fun _ _ => run_applyEach_eq_error_iff⟩
  · intro after
    rw [call_batch_eq]
    cases (applyEach us).run store l with
    | mk answer left =>
      cases answer with
      | ok => exact Iff.rfl
      | error e => exact ⟨fun h => (nomatch h), fun h => (nomatch h)⟩
  · intro fault after
    rw [call_batch_eq]
    cases (applyEach us).run store l with
    | mk answer left =>
      cases answer with
      | ok => exact ⟨fun h => (nomatch h), fun ⟨_, _, h⟩ => (nomatch h)⟩
      | error e =>
        constructor
        · intro h
          obtain ⟨hfault, rfl⟩ := Prod.mk.inj h
          exact ⟨rfl, left, by rw [Except.error.inj hfault]⟩
        · rintro ⟨rfl, before, h⟩
          rw [Except.error.inj (Prod.mk.inj h).1]

/-- A sum that leaves the range for a moment refuses the batch, wherever it would have ended. -/
example :
    let l : Ledger := ⟨.empty, Table.empty.put "c" 0x7fffffffffffffff⟩
    store.call (.batch [⟨"g", .gauge .zero⟩, ⟨"c", .counter 1⟩, ⟨"c", .counter (-1)⟩]) l =
      (.error (.overflow "c" 0x7fffffffffffffff 1), l) := rfl

end Ledger
end Metering
