import Metering.Text.Unprintable
import Metering.Number.Digits
import Metering.Bytes.Hex

/-!
A text shown inside a message.

It stands between double quotes. Quotes, backslashes and the usual control characters have short
escapes; every other character that would not be seen is shown by its number in hexadecimal.
-/
namespace Metering.Text

/-- Whether a character is shown as it is. -/
def isPrintable (c : Char) : Bool :=
  let n := c.toNat
  if n < 0x20 then false
  else if n < 0x7f then true
  else !(n == 0x7f || inUnprintableRange n)

/-- The hexadecimal digits of a number, in small letters. -/
def hexDigits (n : Nat) : List Char := Nat.toDigits 16 n

/-- One character of a shown text. -/
def shownChar (c : Char) : List Char :=
  match c with
  | '\x00' => ['\\', '0']
  | '\t' => ['\\', 't']
  | '\r' => ['\\', 'r']
  | '\n' => ['\\', 'n']
  | '\\' => ['\\', '\\']
  | '"' => ['\\', '"']
  | c => if isPrintable c then [c] else '\\' :: 'u' :: '\x7b' :: hexDigits c.toNat ++ ['\x7d']

/-- A text between quotes, so that its ends and its invisible parts can be seen. -/
def quoted (s : String) : String :=
  String.ofList ('"' :: s.toList.flatMap shownChar ++ ['"'])

end Metering.Text
