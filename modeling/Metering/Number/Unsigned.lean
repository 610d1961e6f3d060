import Metering.Number.Digits

/-!
Whole numbers without a sign, below a limit.

A plus sign may stand in front of the digits. A text is read from the left, and the first
character that cannot belong to the number decides what is said of it.
-/
namespace Metering

/-- Why a text is no number below a limit. -/
inductive UnsignedFault
  | empty
  | badDigit
  | tooLarge
deriving DecidableEq, Repr

namespace UnsignedFault

def message : UnsignedFault → String
  | empty => "cannot parse integer from empty string"
  | badDigit => "invalid digit found in string"
  | tooLarge => "number too large to fit in target type"

end UnsignedFault

namespace Unsigned

/-- Goes on with one more character. -/
def push (limit n : Nat) (c : Char) : Except UnsignedFault Nat :=
  if c.isDigit = false then .error .badDigit
  else if limit ≤ n * 10 + Digits.value c then .error .tooLarge
  else .ok (n * 10 + Digits.value c)

/-- The digits of a text: a plus sign in front of something else is left out. -/
def digits : List Char → List Char
  | '+' :: d :: rest => d :: rest
  | cs => cs

/-- The number below `limit` that a text spells. -/
def read (limit : Nat) (s : String) : Except UnsignedFault Nat :=
  if s.toList = [] then .error .empty else (digits s.toList).foldlM (push limit) 0

/-- The number below `limit` that a text spells, if it spells one. -/
def read? (limit : Nat) (s : String) : Option Nat := (read limit s).toOption

end Unsigned
end Metering
