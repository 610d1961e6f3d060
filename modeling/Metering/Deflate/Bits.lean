import Metering.Bytes.Basic

/-!
Bit strings.

A byte gives its bits from the least significant one on, and the bits of a byte string follow
each other. A field of a fixed width is a number from its least significant bit on, while the
words of a prefix code stand from their first bit on.

Main statements: unpacking what was packed gives the bits and at most seven zeros
(`unpack_pack`), and a field is read back (`field_fieldBits`).
-/
namespace Metering

/-- Bits in the order in which they are read. -/
abbrev Bits := List Bool

/-- Why compressed data cannot be read. -/
inductive DeflateFault
  | incomplete
  | corrupt
deriving DecidableEq, Repr

/-- A reader that takes bits off the head of the input. -/
abbrev BitReader (α : Type) := Bits → Except DeflateFault (α × Bits)

namespace Bits

/-- The bits of a byte, the least significant one first. -/
def ofByte (b : UInt8) : Bits :=
  let n := b.toNat
  [n.testBit 0, n.testBit 1, n.testBit 2, n.testBit 3, n.testBit 4, n.testBit 5, n.testBit 6,
    n.testBit 7]

/-- The bits of a byte string. -/
def unpack (b : Bytes) : Bits := b.flatMap ofByte

/-- The number that bits spell, the least significant one first. -/
def value : Bits → Nat
  | [] => 0
  | b :: rest => b.toNat + 2 * value rest

/-- Packs bits behind the bytes that were packed before, which stand in reverse. -/
def packOnto (done : Bytes) : Bits → Bytes
  | b0 :: b1 :: b2 :: b3 :: b4 :: b5 :: b6 :: b7 :: rest =>
    packOnto (UInt8.ofNat (value [b0, b1, b2, b3, b4, b5, b6, b7]) :: done) rest
  | [] => done.reverse
  | short => (UInt8.ofNat (value short) :: done).reverse

/-- The bytes that hold the bits; the last one is filled up with zeros. -/
def pack (bits : Bits) : Bytes := packOnto [] bits

/-- A field of `width` bits. -/
def field : Nat → BitReader Nat
  | 0, bits => .ok (0, bits)
  | width + 1, bits =>
    match bits with
    | [] => .error .incomplete
    | b :: rest =>
      match field width rest with
      | .ok (n, rest) => .ok (b.toNat + 2 * n, rest)
      | .error e => .error e

/-- The bits of a field. -/
def fieldBits : Nat → Nat → Bits
  | 0, _ => []
  | width + 1, n => n.testBit 0 :: fieldBits width (n / 2)

/-- The bits of a word of a prefix code, the most significant one first. -/
def wordBits (width n : Nat) : Bits := (fieldBits width n).reverse

/-- What is left behind the byte in which the reader stands. -/
def alignToByte (bits : Bits) : Bits := bits.drop (bits.length % 8)

/-- The next `count` bytes, at a byte boundary. -/
def takeBytes (count : Nat) : BitReader Bytes := fun bits =>
  if bits.length < 8 * count then .error .incomplete
  else .ok (pack (bits.take (8 * count)), bits.drop (8 * count))

/-! ## Laws -/

theorem field_fieldBits {width n : Nat} (h : n < Nat.pow 2 width) (rest : Bits) :
    field width (fieldBits width n ++ rest) = .ok (n, rest) := by
  induction width generalizing n with
  | zero => simp at h; simp [field, fieldBits, h]
  | succ w ih =>
    have hlt : n / 2 < Nat.pow 2 w := by
      have hw : Nat.pow 2 (w + 1) = Nat.pow 2 w * 2 := rfl
      omega
    have hn : (n.testBit 0).toNat + 2 * (n / 2) = n := by
      rw [Nat.testBit_zero]
      rcases Nat.mod_two_eq_zero_or_one n with h | h <;> simp [h] <;> omega
    simp only [fieldBits, List.cons_append, field, ih hlt, hn]

@[simp] theorem length_unpack (b : Bytes) : (unpack b).length = 8 * b.length := by
  induction b with
  | nil => rfl
  | cons x xs ih =>
    simp only [unpack, List.flatMap_cons, List.length_append] at ih ⊢
    rw [ih]
    simp [ofByte]
    omega

theorem ofByte_value (b0 b1 b2 b3 b4 b5 b6 b7 : Bool) :
    ofByte (UInt8.ofNat (value [b0, b1, b2, b3, b4, b5, b6, b7])) =
      [b0, b1, b2, b3, b4, b5, b6, b7] := by
  revert b0 b1 b2 b3 b4 b5 b6 b7
  decide +kernel

/-- Zeros behind the last bit do not change a value. -/
theorem value_append_zeros (bits : Bits) (k : Nat) :
    value (bits ++ List.replicate k false) = value bits := by
  induction bits with
  | nil => induction k with
    | zero => rfl
    | succ k ih =>
      simp only [List.nil_append, List.replicate_succ, value] at ih ⊢
      simp [ih]
  | cons b rest ih => simp [value, ih]

/-- A byte made of at most eight bits gives them back, with zeros behind them. -/
theorem ofByte_value_short {bits : Bits} (h : bits.length ≤ 8) :
    ofByte (UInt8.ofNat (value bits)) = bits ++ List.replicate (8 - bits.length) false := by
  rw [← value_append_zeros bits (8 - bits.length)]
  generalize hl : bits ++ List.replicate (8 - bits.length) false = long
  have hlen : long.length = 8 := by rw [← hl]; simp; omega
  match long, hlen with
  | [b0, b1, b2, b3, b4, b5, b6, b7], _ => exact ofByte_value b0 b1 b2 b3 b4 b5 b6 b7

theorem unpack_packOnto (done : Bytes) (bits : Bits) :
    ∃ k < 8, unpack (packOnto done bits) = unpack done.reverse ++ bits ++ List.replicate k false := by
  fun_induction packOnto done bits with
  | case1 done b0 b1 b2 b3 b4 b5 b6 b7 rest ih =>
    obtain ⟨k, hk, h⟩ := ih
    refine ⟨k, hk, ?_⟩
    rw [h]
    simp [unpack, ofByte_value]
  | case2 done => exact ⟨0, by omega, by simp⟩
  | case3 done short hlong hne =>
    have hpos : 0 < short.length := by cases short <;> simp_all
    have hshort : short.length < 8 := by
      match short, hlong with
      | [], _ | [_], _ | [_, _], _ | [_, _, _], _ | [_, _, _, _], _ | [_, _, _, _, _], _
      | [_, _, _, _, _, _], _ | [_, _, _, _, _, _, _], _ => all_goals simp
      | _ :: _ :: _ :: _ :: _ :: _ :: _ :: _ :: _, h => exact (h _ _ _ _ _ _ _ _ _ rfl).elim
    refine ⟨8 - short.length, by omega, ?_⟩
    simp [unpack, ofByte_value_short (Nat.le_of_lt hshort)]

theorem unpack_pack (bits : Bits) :
    ∃ k < 8, unpack (pack bits) = bits ++ List.replicate k false := by
  have h := unpack_packOnto [] bits
  simpa [pack, show unpack ([] : Bytes) = [] from rfl] using h

end Bits
end Metering
