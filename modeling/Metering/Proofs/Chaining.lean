/-!
Steps that can fail, one after another.

A chain succeeds when each of its steps does, and it fails with the fault of the first step that
does. Results: `ok_of_bind` takes a successful chain apart, `ok_of_mapM` and `error_of_mapM` one
over a list, and `bind_of_ok` and `bind_of_error` run one.
-/
namespace Metering.Chaining

variable {ε α β : Type}

/-- A chain that succeeds has a first step that succeeds, and goes on with its answer. -/
theorem ok_of_bind {x : Except ε α} {f : α → Except ε β} {b : β} (h : x >>= f = .ok b) :
    ∃ a, x = .ok a ∧ f a = .ok b := by
  cases x with
  | error e => cases h
  | ok a => exact ⟨a, rfl, h⟩

theorem bind_of_ok {x : Except ε α} {f : α → Except ε β} {a : α} (h : x = .ok a) :
    x >>= f = f a := by
  rw [h]
  rfl

theorem bind_of_error {x : Except ε α} {f : α → Except ε β} {e : ε} (h : x = .error e) :
    x >>= f = .error e := by
  rw [h]
  rfl

/-- What a chain over a list gives, each of its elements gave. -/
theorem ok_of_mapM {f : α → Except ε β} {xs : List α} {ys : List β} (h : xs.mapM f = .ok ys) :
    ∀ y ∈ ys, ∃ x ∈ xs, f x = .ok y := by
  induction xs generalizing ys with
  | nil =>
    obtain rfl := Except.ok.inj h
    intro y hy
    cases hy
  | cons x xs ih =>
    rw [List.mapM_cons] at h
    obtain ⟨first, hfirst, h⟩ := ok_of_bind h
    obtain ⟨others, hothers, hpure⟩ := ok_of_bind h
    obtain rfl := Except.ok.inj hpure
    intro y hy
    rcases List.mem_cons.mp hy with rfl | hy
    · exact ⟨x, List.mem_cons_self, hfirst⟩
    · obtain ⟨x', hx', hy⟩ := ih hothers y hy
      exact ⟨x', List.mem_cons_of_mem x hx', hy⟩

/-- A chain over a list that fails, fails as one of the elements did. -/
theorem error_of_mapM {f : α → Except ε β} {xs : List α} {e : ε} (h : xs.mapM f = .error e) :
    ∃ x ∈ xs, f x = .error e := by
  induction xs with
  | nil => cases h
  | cons x xs ih =>
    rw [List.mapM_cons] at h
    cases hx : f x with
    | error e' =>
      rw [bind_of_error hx] at h
      exact ⟨x, List.mem_cons_self, hx.trans (congrArg _ (Except.error.inj h))⟩
    | ok y =>
      rw [bind_of_ok hx] at h
      cases hxs : xs.mapM f with
      | error e' =>
        rw [bind_of_error hxs] at h
        obtain ⟨x', hx', he⟩ := ih (hxs.trans (congrArg _ (Except.error.inj h)))
        exact ⟨x', List.mem_cons_of_mem x hx', he⟩
      | ok ys =>
        rw [bind_of_ok hxs] at h
        cases h

theorem ok_of_toOption {x : Except ε α} {a : α} (h : x.toOption = some a) : x = .ok a := by
  cases x with
  | error e => cases h
  | ok b => rw [Option.some.inj h]

end Metering.Chaining
