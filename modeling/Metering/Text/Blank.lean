/-!
Blanks of Unicode, and texts without the blanks at their ends.

The class is the property `White_Space`. It holds every character that core's `isWhitespace`
holds, and more.
-/
namespace Metering.Text

/-- Whether a character is a blank of any script. -/
def isBlank (c : Char) : Bool :=
  let n := c.toNat
  (9 ≤ n && n ≤ 13) || n == 0x20 || n == 0x85 || n == 0xa0 || n == 0x1680 ||
    (0x2000 ≤ n && n ≤ 0x200a) || n == 0x2028 || n == 0x2029 || n == 0x202f || n == 0x205f ||
    n == 0x3000

/-- The characters without the blanks at both ends. -/
def trimChars (cs : List Char) : List Char :=
  ((cs.dropWhile isBlank).reverse.dropWhile isBlank).reverse

/-- A text without the blanks at both ends. -/
def trim (s : String) : String := String.ofList (trimChars s.toList)

/-- The parts of a text between the characters that satisfy `p`; there is always one. -/
def splitChars (p : Char → Bool) : List Char → List (List Char)
  | [] => [[]]
  | c :: cs =>
    if p c then [] :: splitChars p cs
    else match splitChars p cs with
      | [] => [[c]]
      | part :: more => (c :: part) :: more

/-- The parts of a text between the characters that satisfy `p`. -/
def split (p : Char → Bool) (s : String) : List String :=
  (splitChars p s.toList).map String.ofList

/-- Lower case of the Latin letters without marks. -/
def lower (s : String) : String := String.ofList (s.toList.map Char.toLower)

end Metering.Text
