import Metering.Json.Cursor

/-!
Passing over a value that nobody asked for.

The value of an unknown field may nest to any depth, so its open brackets are kept in a list. Its
grammar is checked, but its texts need not be well formed, its numbers may be out of range and
its surrogates may stand alone.
-/
namespace Metering.JsonReader

/-- What is open around the value being skipped. -/
inductive Bracket
  | list
  | object
deriving DecidableEq, Repr

/-- An escape inside a skipped text. -/
def skipEscape : JsonReader Unit := do
  match ← peek with
  | none => failHere .endInText
  | some b =>
    bump
    if b = 0x75 then discard hexEscape
    else if (shortEscape? b).isSome then pure ()
    else failHere .badEscape

/-- A skipped text up to its closing quote. -/
def skipTextBytes : Bytes → JsonReader Unit
  | [] => failHere .endInText
  | _ :: fuel => do
    match ← peek with
    | none => failHere .endInText
    | some b =>
      if b = 0x22 then bump
      else if b = 0x5c then
        bump
        skipEscape
        skipTextBytes fuel
      else if b < 0x20 then failHere .controlCharacter
      else
        bump
        skipTextBytes fuel

/-- A skipped text, behind its opening quote. -/
def skipText : JsonReader Unit := do
  skipTextBytes (← steps)

/-- A skipped exponent, on its `e`. -/
def skipExponent : JsonReader Unit := do
  bump
  match ← peek with
  | some 0x2b | some 0x2d => bump
  | _ => pure ()
  match ← peek with
  | none => failHere .badNumber
  | some b =>
    bump
    if isDigit b then discard digits else failHere .badNumber

/-- What may follow the whole part of a skipped number. -/
def skipAfterWhole : JsonReader Unit := do
  match ← peek with
  | some 0x2e =>
    bump
    let ds ← digits
    if ds = [] then failAhead .badNumber
    else match ← peek with
      | some 0x65 | some 0x45 => skipExponent
      | _ => pure ()
  | some 0x65 | some 0x45 => skipExponent
  | _ => pure ()

/-- A skipped number behind its sign. -/
def skipNumber : JsonReader Unit := do
  match ← peek with
  | none => failHere .badNumber
  | some b =>
    if b = 0x30 then
      bump
      match ← peek with
      | some d => if isDigit d then failAhead .badNumber else skipAfterWhole
      | none => skipAfterWhole
    else if isDigit b then
      discard digits
      skipAfterWhole
    else
      bump
      failHere .badNumber

/-- One token that starts a value: a whole value, or the bracket it opens. -/
def skipStart : JsonReader (Option Bracket) := do
  match ← peekToken with
  | none => failAhead .endInValue
  | some 0x6e => bump; wordNull; pure none
  | some 0x74 => bump; wordTrue; pure none
  | some 0x66 => bump; wordFalse; pure none
  | some 0x2d => bump; skipNumber; pure none
  | some 0x22 => bump; skipText; pure none
  | some 0x5b => bump; pure (some .list)
  | some 0x7b => bump; pure (some .object)
  | some b => if isDigit b then do skipNumber; pure none else failAhead .expectedValue

/-- The end of a text inside a bracket. -/
def Bracket.endReason : Bracket → JsonReason
  | .list => .endInList
  | .object => .endInObject

/-- Something else where a comma or the closing bracket belongs. -/
def Bracket.commaReason : Bracket → JsonReason
  | .list => .expectedListCommaOrEnd
  | .object => .expectedObjectCommaOrEnd

/-- The byte that closes a bracket. -/
def Bracket.closing : Bracket → UInt8
  | .list => 0x5d
  | .object => 0x7d

/-- Closes brackets until another item follows. A comma is taken only behind an item, which an
enclosing bracket always has. The answer is what is still open, innermost first. -/
def skipClosings : List Bracket → Bool → JsonReader (List Bracket)
  | [], _ => pure []
  | frame :: outer, afterItem => do
    match ← peekToken with
    | none => failAhead frame.endReason
    | some b =>
      if b = 0x2c ∧ afterItem then
        bump
        pure (frame :: outer)
      else if b = frame.closing then
        bump
        skipClosings outer true
      else if afterItem then failAhead frame.commaReason
      else pure (frame :: outer)

/-- The key of an object's next member and its colon. -/
def skipKey : JsonReader Unit := do
  match ← peekToken with
  | none => failAhead .endInObject
  | some 0x22 =>
    bump
    skipText
    match ← peekToken with
    | none => failAhead .endInObject
    | some 0x3a => bump
    | some _ => failAhead .expectedColon
  | some _ => failAhead .keyNotText

/-- Skips values until nothing is open. Every round takes at least one byte. -/
def skipLoop : Bytes → List Bracket → JsonReader Unit
  | [], _ => failAhead .endInValue
  | _ :: fuel, opened => do
    let started ← skipStart
    let still ← match started with
      | some frame => skipClosings (frame :: opened) false
      | none => skipClosings opened true
    match still with
    | [] => pure ()
    | frame :: _ =>
      if frame = .object then skipKey
      skipLoop fuel still

/-- Passes over one value of any kind. -/
def skipValue : JsonReader Unit := do
  skipLoop (← steps) []

end Metering.JsonReader
