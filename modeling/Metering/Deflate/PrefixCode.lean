import Metering.Deflate.Bits

/-!
Canonical prefix codes.

A code is given by the length of the word of each symbol, zero for a symbol without a word. Words
of one length follow each other by symbol, and each length goes on where the one before it
stopped. So reading needs the number of words of each length and the symbols in that order.

Main statement: what stands behind a word does not matter (`decode_append`).
-/
namespace Metering

/-- A prefix code: how many words have each length from one bit on, and the symbols by the length
of their words. -/
structure PrefixCode where
  counts : List Nat
  symbols : Array Nat
deriving DecidableEq, Repr

namespace PrefixCode

/-- The greatest length of a word. -/
def maxLength : Nat := 15

/-- The symbols whose words have a given length. -/
def symbolsOf (lengths : List Nat) (length : Nat) : List Nat :=
  (lengths.zipIdx.filter fun e => e.1 == length).map Prod.snd

/-- The code with given lengths of words. -/
def ofLengths (lengths : List Nat) : PrefixCode :=
  let byLength := (List.range maxLength).map fun i => symbolsOf lengths (i + 1)
  ⟨byLength.map List.length, byLength.flatten.toArray⟩

/-- The part of all words of the greatest length that the code takes up; words of the lengths
above count for the words they start. -/
def weight (code : PrefixCode) : Nat := code.counts.foldl (fun w c => 2 * w + c) 0

/-- Whether every sequence of bits starts with a word, and with one only. -/
def isComplete (code : PrefixCode) : Bool := code.weight == Nat.pow 2 maxLength

/-- Whether the code may be used: it is complete, or has at most one word. -/
def isUsable (code : PrefixCode) : Bool := code.isComplete || code.symbols.size ≤ 1

/-- Looks for a word, bit by bit. `first` is the first word of the length at hand and `index` the
place of its symbol; `word` is what was read, moved left by one bit. -/
def walk (symbols : Array Nat) : List Nat → Nat → Nat → Nat → BitReader Nat
  | [], _, _, _, _ => .error .corrupt
  | _ :: _, _, _, _, [] => .error .incomplete
  | count :: counts, word, first, index, b :: rest =>
    let word := word + b.toNat
    if word < first + count then
      match symbols[index + (word - first)]? with
      | some s => .ok (s, rest)
      | none => .error .corrupt
    else walk symbols counts (2 * word) (2 * (first + count)) (index + count) rest

/-- The symbol of the word at the head of the input. -/
def decode (code : PrefixCode) : BitReader Nat := walk code.symbols code.counts 0 0 0

theorem walk_append {symbols : Array Nat} {counts : List Nat} {word first index s : Nat}
    {bits left : Bits} (h : walk symbols counts word first index bits = .ok (s, left))
    (rest : Bits) :
    walk symbols counts word first index (bits ++ rest) = .ok (s, left ++ rest) := by
  induction counts generalizing word first index bits with
  | nil => simp [walk] at h
  | cons count counts ih =>
    cases bits with
    | nil => simp [walk] at h
    | cons b bits =>
      simp only [walk, List.cons_append] at h ⊢
      split
      · rename_i hlt
        simp only [hlt, if_true] at h
        split at h
        · obtain ⟨rfl, rfl⟩ := by simpa using h
          rfl
        · simp at h
      · rename_i hge
        simp only [hge, if_false] at h
        exact ih h

theorem decode_append {code : PrefixCode} {s : Nat} {bits left : Bits}
    (h : code.decode bits = .ok (s, left)) (rest : Bits) :
    code.decode (bits ++ rest) = .ok (s, left ++ rest) := walk_append h rest

end PrefixCode
end Metering
