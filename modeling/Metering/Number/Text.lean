import Metering.Number.Shortest

/-!
The text of a number, outside of any format.

Writing never uses an exponent and drops the point of a whole number. Reading takes digits with
an optional sign, point and exponent, and the names of infinity and of the value that is no
number, in any case of letters.
-/
namespace Metering.Binary64

/-- A number standing alone is positional and keeps no `.0`; a tie goes up. -/
def plain : NumberStyle := ⟨.up, false, fun _ => true⟩

/-- The shortest text that reads back, without exponent. -/
def text (x : Binary64) : String :=
  if x.isNaN then "NaN"
  else if x.isInfinite then if x.negative then "-inf" else "inf"
  else String.ofList (plain.finite x)

/-- The exponent part of a number: nothing, or `e` and a signed run of digits. -/
def readExponent? : List Char → Option Int
  | [] => some 0
  | e :: rest => if e = 'e' ∨ e = 'E' then Digits.readInt? rest else none

/-- Digits with an optional point among them and an optional exponent. -/
def readDecimal? (negative : Bool) (cs : List Char) : Option Decimal :=
  let (whole, rest) := Digits.span cs
  let (fraction, rest) := match rest with
    | '.' :: more => Digits.span more
    | _ => ([], rest)
  if whole = [] ∧ fraction = [] then none
  else (readExponent? rest).map (Decimal.ofParts negative whole fraction)

/-- An unsigned number: a name or a decimal. -/
def readUnsigned? (negative : Bool) (cs : List Char) : Option Binary64 :=
  let name := cs.map Char.toLower
  if name = ['i', 'n', 'f'] ∨ name = ['i', 'n', 'f', 'i', 'n', 'i', 't', 'y'] then
    some (ofRank negative infinityRank)
  else if name = ['n', 'a', 'n'] then some (ofRank negative notANumber.rank)
  else (readDecimal? negative cs).map Decimal.toBinary64

/-- The number nearest to what a text spells. -/
def ofText? (s : String) : Option Binary64 :=
  match s.toList with
  | '-' :: cs => readUnsigned? true cs
  | '+' :: cs => readUnsigned? false cs
  | cs => readUnsigned? false cs

end Metering.Binary64
