import Metering.Deflate.Inflate
import Metering.Deflate.Matcher

/-!
Writing compressed data: one block of tokens under the fixed codes.

Main statement: every symbol's word is read back as the symbol, whatever follows
(`decode_symbolWord`), and likewise for distances (`decode_distanceWord`).
-/
namespace Metering.Deflate

/-- The word of a symbol under the fixed code. -/
def symbolWord (s : Nat) : Bits :=
  if s < 144 then Bits.wordBits 8 (0x30 + s)
  else if s < 256 then Bits.wordBits 9 (0x190 + (s - 144))
  else if s < 280 then Bits.wordBits 7 (s - 256)
  else Bits.wordBits 8 (0xc0 + (s - 280))

/-- The word of a class of distances under the fixed code. -/
def distanceWord (d : Nat) : Bits := Bits.wordBits 5 d

/-- The bits of a token. -/
def tokenBits : Token → Bits
  | .literal b => symbolWord b.toNat
  | .copy length distance =>
    let (l, lengthBase, lengthWidth) := ClassTable.lengths.classOf length
    let (d, base, width) := ClassTable.distances.classOf distance
    symbolWord (Inflate.endSymbol + 1 + l) ++ Bits.fieldBits lengthWidth (length - lengthBase) ++
      distanceWord d ++ Bits.fieldBits width (distance - base)

/-- The bits of one block that is the last. -/
def blockBits (tokens : List Token) : Bits :=
  Bits.fieldBits 1 1 ++ Bits.fieldBits 2 1 ++ tokens.flatMap tokenBits ++
    symbolWord Inflate.endSymbol

/-- Compressed data that stands for a byte string. -/
def write (data : Bytes) : Bytes := Bits.pack (blockBits (Token.ofBytes data))

/-! ## Laws -/

theorem eq_ok_of_toOption {e : Except ε α} {a : α} (h : e.toOption = some a) : e = .ok a := by
  cases e with
  | error => simp [Except.toOption] at h
  | ok b => simpa [Except.toOption] using h

theorem decode_symbolWord {s : Nat} (h : s < 288) (rest : Bits) :
    Inflate.fixedCode.symbols.decode (symbolWord s ++ rest) = .ok (s, rest) := by
  have all : ∀ s : Fin 288,
      (Inflate.fixedCode.symbols.decode (symbolWord s.val)).toOption = some (s.val, []) := by
    decide +kernel
  simpa using PrefixCode.decode_append (eq_ok_of_toOption (all ⟨s, h⟩)) rest

theorem decode_distanceWord {d : Nat} (h : d < 32) (rest : Bits) :
    Inflate.fixedCode.distances.decode (distanceWord d ++ rest) = .ok (d, rest) := by
  have all : ∀ d : Fin 32,
      (Inflate.fixedCode.distances.decode (distanceWord d.val)).toOption = some (d.val, []) := by
    decide +kernel
  simpa using PrefixCode.decode_append (eq_ok_of_toOption (all ⟨d, h⟩)) rest

end Metering.Deflate
