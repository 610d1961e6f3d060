import Metering.Store.Ledger

/-!
A batch is its updates, one after another.

`applyAll` adds up the counters of a batch before it writes anything, while `apply` writes at
once. The two agree on every list: a batch leaves what the single updates leave, and it is refused
with the fault of the first of them that is refused.

Results:
1. `applyAll_eq_foldlM`: a batch is the fold of `apply`, faults included.
2. `counters_apply`, `gauges_apply`: what one accepted update leaves in each namespace.
-/
namespace Metering

namespace Ledger

/-- An accepted sum is the exact sum. -/
theorem toInt_of_total {counters : Table Int64} {id : String} {d sum : Int64}
    (h : total counters id d = .ok sum) :
    sum.toInt = ((counters.get? id).getD 0).toInt + d.toInt := by
  unfold total at h
  dsimp only at h
  split at h
  next s hs =>
    obtain rfl : s = sum := Except.ok.inj h
    exact Counter.toInt_of_ofInt? hs
  next => cases h

theorem apply_counter_ok {l : Ledger} {id : String} {d sum : Int64}
    (h : total l.counters id d = .ok sum) :
    l.apply ⟨id, .counter d⟩ = .ok { l with counters := l.counters.put id sum } := by
  simp only [apply, addCounter, h, bind, Except.bind, pure, Except.pure]

theorem apply_counter_error {l : Ledger} {id : String} {d : Int64} {e : StoreFault}
    (h : total l.counters id d = .error e) : l.apply ⟨id, .counter d⟩ = .error e := by
  simp only [apply, addCounter, h, bind, Except.bind]

/-! ## 1. The fold -/

/-- The first update of a batch may be taken out and applied alone. -/
theorem applyAll_cons (l : Ledger) (u : Update) (us : List Update) :
    l.applyAll (u :: us) = l.apply u >>= fun l' => l'.applyAll us := by
  obtain ⟨id, value⟩ := u
  cases value with
  | gauge x => rfl
  | counter d =>
    cases h : total l.counters id d with
    | error e =>
      rw [apply_counter_error h]
      simp only [applyAll, stage, h, bind, Except.bind]
    | ok sum =>
      rw [apply_counter_ok h]
      simp only [applyAll, stage, putGauges, h, bind, Except.bind]

theorem applyAll_eq_foldlM (l : Ledger) (us : List Update) :
    l.applyAll us = us.foldlM apply l := by
  induction us generalizing l with
  | nil => rfl
  | cons u us ih =>
    rw [applyAll_cons, List.foldlM_cons]
    exact congrArg (l.apply u >>= ·) (funext ih)

/-! ## 2. One update -/

/-- The counters after an accepted update, as exact sums. -/
theorem counters_apply {l l' : Ledger} {u : Update} (h : l.apply u = .ok l') (id : String) :
    (l'.counters.get? id).map Int64.toInt =
      match u.value with
      | .gauge _ => (l.counters.get? id).map Int64.toInt
      | .counter d =>
        if u.id = id then some (((l.counters.get? id).getD 0).toInt + d.toInt)
        else (l.counters.get? id).map Int64.toInt := by
  obtain ⟨uid, value⟩ := u
  cases value with
  | gauge x =>
    obtain rfl := Except.ok.inj h
    rfl
  | counter d =>
    cases ht : total l.counters uid d with
    | error e => rw [apply_counter_error ht] at h; cases h
    | ok sum =>
      rw [apply_counter_ok ht] at h
      obtain rfl := Except.ok.inj h
      by_cases hid : uid = id
      · subst hid
        simp [toInt_of_total ht]
      · simp [hid, Table.get?_put_of_ne _ (Ne.symm hid)]

/-- The gauges after an accepted update. -/
theorem gauges_apply {l l' : Ledger} {u : Update} (h : l.apply u = .ok l') (id : String) :
    l'.gauges.get? id =
      match u.value with
      | .gauge x => if u.id = id then some x else l.gauges.get? id
      | .counter _ => l.gauges.get? id := by
  obtain ⟨uid, value⟩ := u
  cases value with
  | gauge x =>
    obtain rfl := Except.ok.inj h
    by_cases hid : uid = id
    · subst hid
      simp [setGauge]
    · simp [setGauge, hid, Table.get?_put_of_ne _ (Ne.symm hid)]
  | counter d =>
    cases ht : total l.counters uid d with
    | error e => rw [apply_counter_error ht] at h; cases h
    | ok sum =>
      rw [apply_counter_ok ht] at h
      obtain rfl := Except.ok.inj h
      rfl

end Ledger
end Metering
