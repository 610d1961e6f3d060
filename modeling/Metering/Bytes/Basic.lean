/-!
Byte strings.

A message, a file and a key are lists of bytes, so that a law about one byte and the rest is an
induction. Text becomes bytes by its UTF-8 form (`Bytes.ofText`) and bytes become text only when
they are well formed (`Bytes.toText?`). Whole numbers are written in either byte order with a
fixed width.

Main statements: text read back from its own bytes is that text (`toText?_ofText`), a number that
fits its width is read back from its big-endian form (`toNatBig_ofNatBig`), and bytes are read back
from their number (`ofNatBig_toNatBig`).
-/
namespace Metering

/-- The contents of a message, a file or a key. -/
abbrev Bytes := List UInt8

namespace Bytes

/-- The UTF-8 form of a text. -/
def ofText (s : String) : Bytes := s.toByteArray.data.toList

/-- The text that the bytes spell, if they are well-formed UTF-8. -/
def toText? (b : Bytes) : Option String := String.fromUTF8? ⟨b.toArray⟩

/-- How many bytes the first character takes, if the bytes start with a well-formed one. -/
def charWidth? (b : Bytes) : Option Nat :=
  [1, 2, 3, 4].find? fun n => n ≤ b.length && (toText? (b.take n)).isSome

/-- How many of the first bytes are well-formed text, with `fuel` bounding the characters. -/
def wellFormedWithin : Nat → Bytes → Nat
  | 0, _ => 0
  | fuel + 1, b =>
    match charWidth? b with
    | some n => n + wellFormedWithin fuel (b.drop n)
    | none => 0

/-- The length of the longest well-formed beginning. -/
def wellFormedLength (b : Bytes) : Nat := wellFormedWithin b.length b

/-- The number that the bytes spell, most significant byte first. -/
def toNatBig (b : Bytes) : Nat := b.foldl (fun n x => n * 256 + x.toNat) 0

/-- The number that the bytes spell, least significant byte first. -/
def toNatLittle : Bytes → Nat
  | [] => 0
  | x :: rest => x.toNat + 256 * toNatLittle rest

/-- `width` bytes, least significant first; higher digits are dropped. -/
def ofNatLittle : Nat → Nat → Bytes
  | 0, _ => []
  | width + 1, n => UInt8.ofNat n :: ofNatLittle width (n / 256)

/-- `width` bytes, most significant first; higher digits are dropped. -/
def ofNatBig (width n : Nat) : Bytes := (ofNatLittle width n).reverse

/-- What holds of the bytes of all numbers below 256 holds of every byte. -/
theorem forall_byte {P : UInt8 → Prop} (h : ∀ n < 256, P (UInt8.ofNat n)) (b : UInt8) : P b := by
  have hb := h b.toNat b.toNat_lt
  rwa [UInt8.ofNat_toNat] at hb

theorem toText?_ofText (s : String) : toText? (ofText s) = some s := by
  have h : (⟨(ofText s).toArray⟩ : ByteArray) = s.toByteArray := by simp [ofText]
  simp [toText?, h, String.fromUTF8?, s.isValidUTF8, String.fromUTF8]

@[simp] theorem length_ofNatLittle (width n : Nat) : (ofNatLittle width n).length = width := by
  induction width generalizing n with
  | zero => rfl
  | succ w ih => simp [ofNatLittle, ih]

@[simp] theorem length_ofNatBig (width n : Nat) : (ofNatBig width n).length = width := by
  simp [ofNatBig]

theorem toNatLittle_ofNatLittle {width n : Nat} (h : n < Nat.pow 256 width) :
    toNatLittle (ofNatLittle width n) = n := by
  induction width generalizing n with
  | zero => simp at h; simp [ofNatLittle, toNatLittle, h]
  | succ w ih =>
    have hd : n / 256 < Nat.pow 256 w := by
      rw [Nat.div_lt_iff_lt_mul (by decide)]
      simpa [Nat.pow_succ] using h
    simp [ofNatLittle, toNatLittle, ih hd]
    omega

theorem toNatBig_reverse (b : Bytes) : toNatBig b.reverse = toNatLittle b := by
  induction b with
  | nil => rfl
  | cons x rest ih =>
    simp only [toNatBig, List.reverse_cons, List.foldl_append, List.foldl_cons, List.foldl_nil]
    have : rest.reverse.foldl (fun n (y : UInt8) => n * 256 + y.toNat) 0 = toNatLittle rest := ih
    rw [this, toNatLittle]
    omega

theorem toNatBig_ofNatBig {width n : Nat} (h : n < Nat.pow 256 width) :
    toNatBig (ofNatBig width n) = n := by
  rw [ofNatBig, toNatBig_reverse, toNatLittle_ofNatLittle h]

theorem ofNatLittle_toNatLittle (b : Bytes) : ofNatLittle b.length (toNatLittle b) = b := by
  induction b with
  | nil => rfl
  | cons x rest ih =>
    have hx : x.toNat < 256 := x.toNat_lt
    have hdiv : (x.toNat + 256 * toNatLittle rest) / 256 = toNatLittle rest := by omega
    have hbyte : UInt8.ofNat (x.toNat + 256 * toNatLittle rest) = x := by
      apply UInt8.toNat_inj.mp
      rw [UInt8.toNat_ofNat']
      omega
    rw [List.length_cons, toNatLittle, ofNatLittle, hdiv, ih, hbyte]

theorem toNatBig_eq (b : Bytes) : toNatBig b = toNatLittle b.reverse := by
  rw [← toNatBig_reverse, List.reverse_reverse]

theorem ofNatBig_toNatBig (b : Bytes) : ofNatBig b.length (toNatBig b) = b := by
  have h := ofNatLittle_toNatLittle b.reverse
  rw [List.length_reverse] at h
  rw [ofNatBig, toNatBig_eq, h, List.reverse_reverse]

/-- A zero in front adds nothing. -/
theorem toNatBig_zero_cons (b : Bytes) : toNatBig (0 :: b) = toNatBig b := rfl

end Bytes
end Metering
