/-!
The longest run at the head of a list.

Readers take as many digits, blanks or other characters as there are. Such a run ends where it was
meant to end if nothing that could go on it stands behind it. Results: `takeWhile_append` and
`dropWhile_append` cut a list exactly there, `takeWhile_append_of_stop` leaves a run of another list
as it was, and `drop_length_takeWhile` says that counting the run and dropping it come to the same.
-/
namespace Metering.HeadRuns

variable {α : Type} {p : α → Bool} {run rest : List α}

theorem takeWhile_append (hrun : ∀ x ∈ run, p x = true)
    (hrest : ∀ x, rest.head? = some x → p x = false) : (run ++ rest).takeWhile p = run := by
  rw [List.takeWhile_append_of_pos hrun]
  cases rest with
  | nil => exact List.append_nil run
  | cons x rest =>
    rw [List.takeWhile_cons, hrest x rfl]
    exact List.append_nil run

theorem dropWhile_append (hrun : ∀ x ∈ run, p x = true)
    (hrest : ∀ x, rest.head? = some x → p x = false) : (run ++ rest).dropWhile p = rest := by
  rw [List.dropWhile_append_of_pos hrun]
  cases rest with
  | nil => rfl
  | cons x rest =>
    rw [List.dropWhile_cons, hrest x rfl]
    rfl

/-- What cannot go on a run adds nothing to one, wherever that one ends. -/
theorem takeWhile_append_of_stop (hrest : ∀ x, rest.head? = some x → p x = false) (l : List α) :
    (l ++ rest).takeWhile p = l.takeWhile p := by
  have hstop : rest.takeWhile p = [] := by
    cases rest with
    | nil => rfl
    | cons x rest => rw [List.takeWhile_cons, hrest x rfl]; rfl
  rw [List.takeWhile_append, hstop, List.append_nil]
  split
  next hall => exact ((List.takeWhile_prefix p).eq_of_length hall).symm
  next => rfl

theorem drop_length_takeWhile (p : α → Bool) (l : List α) :
    l.drop (l.takeWhile p).length = l.dropWhile p := by
  calc l.drop (l.takeWhile p).length
      = (l.takeWhile p ++ l.dropWhile p).drop (l.takeWhile p).length := by
        rw [List.takeWhile_append_dropWhile]
    _ = l.dropWhile p := List.drop_left

end Metering.HeadRuns
