import Metering.Text.Base64

/-!
Binary documents in text form.

A document stands between two lines that carry its label. Its Base64 text is broken into lines of
64 characters, of which only the last may be shorter. Text in front of the opening line is passed
over; behind the closing line only the end of the line may follow.
-/
namespace Metering.Pem

/-- What opens the first line. -/
def opening : Bytes := Bytes.ofText "-----BEGIN "

/-- What opens the last line. -/
def closing : Bytes := Bytes.ofText "-----END "

/-- What ends both lines. -/
def rule : Bytes := Bytes.ofText "-----"

/-- The length of a line. -/
def lineLength : Nat := 64

/-- Passes over the end of a line. -/
def afterLineEnd? : Bytes → Option Bytes
  | 0x0d :: 0x0a :: rest => some rest
  | 0x0d :: rest => some rest
  | 0x0a :: rest => some rest
  | _ => none

/-- Takes the end of a line off the end. -/
def beforeLineEnd? (b : Bytes) : Option Bytes :=
  match b.reverse with
  | 0x0a :: 0x0d :: rest => some rest.reverse
  | 0x0a :: rest => some rest.reverse
  | 0x0d :: rest => some rest.reverse
  | _ => none

/-- Takes a suffix off. -/
def dropSuffix? (b suffix : Bytes) : Option Bytes :=
  if suffix.isSuffixOf b then some (b.take (b.length - suffix.length)) else none

/-- What follows the opening of the first line: at the start, or behind the first line end that
has it next. A zero byte in front of it is refused. -/
def afterPreamble? : Bytes → Option Bytes
  | [] => none
  | b :: rest =>
    if b = 0 then none
    else if b = 0x0a ∧ opening.isPrefixOf rest then some (rest.drop opening.length)
    else afterPreamble? rest

/-- What follows the opening of the first line. -/
def afterOpening? (text : Bytes) : Option Bytes :=
  if opening.isPrefixOf text then some (text.drop opening.length) else afterPreamble? text

/-- The text without line ends, if its lines have the right lengths. -/
def joinLines? (text : Bytes) : Option Bytes :=
  if _h : lineLength < text.length then do
    let rest ← afterLineEnd? (text.drop lineLength)
    if _hr : rest.length < text.length then
      let more ← joinLines? rest
      return text.take lineLength ++ more
    else none
  else some text
termination_by text.length

/-- The document under a label. -/
def decode? (label : String) (text : Bytes) : Option Bytes := do
  let name := Bytes.ofText label
  let rest ← afterOpening? text
  let head := name ++ rule
  if !head.isPrefixOf rest then none
  let body ← afterLineEnd? (rest.drop head.length)
  let body := (beforeLineEnd? body).getD body
  let body ← dropSuffix? body (closing ++ name ++ rule)
  let body ← beforeLineEnd? body
  Base64.decode? (← joinLines? body)

end Metering.Pem
