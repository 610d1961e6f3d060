import Metering.Bytes.Basic

/-!
Cutting a byte string into pieces of one size.

The last piece may be shorter, and nothing has no pieces. Main statements: the pieces make up the
whole (`flatten_chunks`), none is empty or longer than the size (`length_of_mem_chunks`), and a
string whose length is a multiple of the size is cut evenly (`length_of_mem_chunks_of_dvd`).
-/
namespace Metering.Bytes

/-- Pieces of `size` bytes, the last one of at most that many. Size zero counts as one. -/
def chunks (size : Nat) : Bytes → List Bytes
  | [] => []
  | x :: rest => (x :: rest.take (size - 1)) :: chunks size (rest.drop (size - 1))
termination_by b => b.length
decreasing_by simp only [List.length_drop, List.length_cons]; omega

@[simp] theorem chunks_nil (size : Nat) : chunks size [] = [] := by rw [chunks]

theorem chunks_cons (size : Nat) (x : UInt8) (rest : Bytes) :
    chunks size (x :: rest) =
      (x :: rest.take (size - 1)) :: chunks size (rest.drop (size - 1)) := by rw [chunks]

theorem flatten_chunks (size : Nat) (b : Bytes) : (chunks size b).flatten = b := by
  fun_induction chunks size b with
  | case1 => rfl
  | case2 x rest ih => simp [ih]

theorem length_of_mem_chunks {size : Nat} (hs : 0 < size) {b p : Bytes} (h : p ∈ chunks size b) :
    0 < p.length ∧ p.length ≤ size := by
  fun_induction chunks size b with
  | case1 => simp at h
  | case2 x rest ih =>
    rcases List.mem_cons.1 h with rfl | h
    · simp; omega
    · exact ih h

theorem length_of_mem_chunks_of_dvd {size : Nat} (hs : 0 < size) {b p : Bytes}
    (hd : size ∣ b.length) (h : p ∈ chunks size b) : p.length = size := by
  fun_induction chunks size b with
  | case1 => simp at h
  | case2 x rest ih =>
    have hle : size ≤ rest.length + 1 := Nat.le_of_dvd (by simp) hd
    rcases List.mem_cons.1 h with rfl | h
    · simp; omega
    · refine ih ?_ h
      have : (rest.drop (size - 1)).length = (x :: rest).length - size := by simp; omega
      rw [this]
      exact Nat.dvd_sub hd (Nat.dvd_refl size)

/-- A string of at least one piece is its first `size` bytes and the pieces of the rest. -/
theorem chunks_append {size : Nat} (hs : 0 < size) {a b : Bytes} (ha : a.length = size) :
    chunks size (a ++ b) = a :: chunks size b := by
  cases a with
  | nil => simp at ha; omega
  | cons x rest =>
    have : rest.length = size - 1 := by simp at ha; omega
    rw [List.cons_append, chunks_cons]
    simp [← this]

end Metering.Bytes
