import Metering.Deflate.Token
import Std.Data.HashMap

/-!
Finding copies.

From left to right, the place where the next three bytes were last seen is looked up, and as many
bytes as agree there are copied. The place is only a hint: what is copied is compared first, so
the tokens stand for the data whatever the hints are.

Main statement: `expand_ofBytes`.
-/
namespace Metering.Token

/-- The least and the greatest length of a copy. -/
def leastLength : Nat := 3

def greatestLength : Nat := 258

/-- How far back a copy may start. -/
def greatestDistance : Nat := 32768

/-- How many bytes from `i` on equal those from `j` on, up to a limit. -/
def agreement (data : Array UInt8) (j i : Nat) : Nat → Nat
  | 0 => 0
  | limit + 1 =>
    if i < data.size ∧ data.getD j 0 = data.getD i 0 then
      agreement data (j + 1) (i + 1) limit + 1
    else 0

/-- The key under which the place of the next three bytes is kept. -/
def key (data : Array UInt8) (i : Nat) : Nat :=
  (data.getD i 0).toNat + 256 * ((data.getD (i + 1) 0).toNat + 256 * (data.getD (i + 2) 0).toNat)

/-- The token at place `i`, and how many bytes it stands for. -/
def choose (data : Array UInt8) (i : Nat) (hint : Option Nat) : Token × Nat :=
  match hint with
  | some j =>
    let length := agreement data j i greatestLength
    if j < i ∧ i - j ≤ greatestDistance ∧ leastLength ≤ length then
      (.copy length (i - j), length)
    else (.literal (data.getD i 0), 1)
  | none => (.literal (data.getD i 0), 1)

theorem choose_pos (data : Array UInt8) (i : Nat) (hint : Option Nat) :
    0 < (choose data i hint).2 := by
  cases hint with
  | none => exact Nat.one_pos
  | some j =>
    simp only [choose]
    split
    · rename_i h
      exact Nat.lt_of_lt_of_le (by decide) h.2.2
    · exact Nat.one_pos

/-- The tokens from place `i` on, in front of which stand those in `done`. -/
def tokensFrom (data : Array UInt8) (seen : Std.HashMap Nat Nat) (done : Array Token) (i : Nat) :
    Array Token :=
  if _h : i < data.size then
    let next := choose data i seen[key data i]?
    tokensFrom data (seen.insert (key data i) i) (done.push next.1) (i + next.2)
  else done
termination_by data.size - i
decreasing_by
  have := choose_pos data i seen[key data i]?
  omega

/-- Tokens that stand for the data. -/
def ofBytes (data : Bytes) : List Token := (tokensFrom data.toArray ∅ #[] 0).toList

/-- What tokens stand for, behind what is there already. -/
def expand (out : Window) (tokens : List Token) : Window := tokens.foldl Window.add out

/-! ## Laws -/

theorem copy_agreement {data : Array UInt8} {j i limit : Nat} (hj : j < i) (hi : i ≤ data.size)
    {out : Window} (hout : out.toList = data.toList.take i) :
    (out.copy (i - j) (agreement data j i limit)).toList =
      data.toList.take (i + agreement data j i limit) := by
  induction limit generalizing j i out with
  | zero => simp [agreement, Window.copy, hout]
  | succ limit ih =>
    simp only [agreement]
    split
    · rename_i h
      have hsize : out.size = i := by
        have := congrArg List.length hout
        simpa [Nat.min_eq_left hi] using this
      have hoj : out.getD j 0 = data.getD j 0 := by
        have : out.toList[j]? = (data.toList.take i)[j]? := by rw [hout]
        rw [List.getElem?_take_of_lt hj] at this
        simp only [Array.getElem?_toList] at this
        simp [Array.getD_eq_getD_getElem?, this]
      have hback : out.back (i - j) = data.getD i 0 := by
        simp only [Window.back, hsize]
        rw [if_pos (by omega), show i - (i - j) = j by omega, hoj, h.2]
      have hout' : (out.push (out.back (i - j))).toList = data.toList.take (i + 1) := by
        rw [hback, Array.toList_push, hout, List.take_add_one]
        simp [h.1]
      have := ih (j := j + 1) (i := i + 1) (by omega) (by omega) hout'
      simp only [Window.copy]
      rw [show i - j = i + 1 - (j + 1) by omega] at *
      rw [this]
      congr 1
      omega
    · simp [Window.copy, hout]

theorem add_choose {data : Array UInt8} {i : Nat} (hi : i < data.size) (hint : Option Nat)
    {out : Window} (hout : out.toList = data.toList.take i) :
    (out.add (choose data i hint).1).toList = data.toList.take (i + (choose data i hint).2) := by
  have hlit : (out.push (data.getD i 0)).toList = data.toList.take (i + 1) := by
    rw [Array.toList_push, hout, List.take_add_one]
    simp [hi]
  cases hint with
  | none => exact hlit
  | some j =>
    simp only [choose]
    by_cases h : j < i ∧ i - j ≤ greatestDistance ∧
        leastLength ≤ agreement data j i greatestLength
    · rw [if_pos h]
      exact copy_agreement h.1 (Nat.le_of_lt hi) hout
    · rw [if_neg h]
      exact hlit

theorem expand_tokensFrom {data : Array UInt8} (seen : Std.HashMap Nat Nat) (done : Array Token)
    (i : Nat) (h : (expand #[] done.toList).toList = data.toList.take i) :
    (expand #[] (tokensFrom data seen done i).toList).toList = data.toList := by
  fun_induction tokensFrom data seen done i with
  | case1 seen done i hi next ih =>
    apply ih
    rw [Array.toList_push, expand, List.foldl_append]
    exact add_choose hi _ h
  | case2 seen done i hi =>
    rw [h, List.take_of_length_le]
    simpa using Nat.le_of_not_lt hi

theorem expand_ofBytes (data : Bytes) : (expand #[] (ofBytes data)).toList = data := by
  have := @expand_tokensFrom data.toArray ∅ #[] 0 (by simp [expand])
  simpa [ofBytes] using this

end Metering.Token
