import Metering.Bytes.Basic

/-!
The SHA-256 digest.

A message is padded to whole blocks of 64 bytes. Each block gives sixteen words, which a recurrence
on the last sixteen continues (`Schedule.next`), and each word turns the eight chaining words once
(`Chain.round`).

Main statement: a digest has 32 bytes (`length_digest`).
-/
namespace Metering.Sha256

/-- Rotation to the right. -/
def rotate (x : UInt32) (n : UInt32) : UInt32 := (x >>> n) ||| (x <<< (32 - n))

/-- The round constants: the first 32 bits of the fractional parts of the cube roots of the first
sixty-four primes. -/
def constants : List UInt32 :=
  [0x428a2f98, 0x71374491, 0xb5c0fbcf, 0xe9b5dba5, 0x3956c25b, 0x59f111f1, 0x923f82a4, 0xab1c5ed5,
   0xd807aa98, 0x12835b01, 0x243185be, 0x550c7dc3, 0x72be5d74, 0x80deb1fe, 0x9bdc06a7, 0xc19bf174,
   0xe49b69c1, 0xefbe4786, 0x0fc19dc6, 0x240ca1cc, 0x2de92c6f, 0x4a7484aa, 0x5cb0a9dc, 0x76f988da,
   0x983e5152, 0xa831c66d, 0xb00327c8, 0xbf597fc7, 0xc6e00bf3, 0xd5a79147, 0x06ca6351, 0x14292967,
   0x27b70a85, 0x2e1b2138, 0x4d2c6dfc, 0x53380d13, 0x650a7354, 0x766a0abb, 0x81c2c92e, 0x92722c85,
   0xa2bfe8a1, 0xa81a664b, 0xc24b8b70, 0xc76c51a3, 0xd192e819, 0xd6990624, 0xf40e3585, 0x106aa070,
   0x19a4c116, 0x1e376c08, 0x2748774c, 0x34b0bcb5, 0x391c0cb3, 0x4ed8aa4a, 0x5b9cca4f, 0x682e6ff3,
   0x748f82ee, 0x78a5636f, 0x84c87814, 0x8cc70208, 0x90befffa, 0xa4506ceb, 0xbef9a3f7, 0xc67178f2]

/-- The eight chaining words. -/
structure Chain where
  a : UInt32
  b : UInt32
  c : UInt32
  d : UInt32
  e : UInt32
  f : UInt32
  g : UInt32
  h : UInt32
deriving DecidableEq, Repr

namespace Chain

/-- The first 32 bits of the fractional parts of the square roots of the first eight primes. -/
def initial : Chain :=
  ⟨0x6a09e667, 0xbb67ae85, 0x3c6ef372, 0xa54ff53a, 0x510e527f, 0x9b05688c, 0x1f83d9ab, 0x5be0cd19⟩

/-- One round, with its constant and its word of the schedule. -/
def round (s : Chain) (k w : UInt32) : Chain :=
  let choice := (s.e &&& s.f) ^^^ ((~~~ s.e) &&& s.g)
  let majority := (s.a &&& s.b) ^^^ (s.a &&& s.c) ^^^ (s.b &&& s.c)
  let t1 := s.h + (rotate s.e 6 ^^^ rotate s.e 11 ^^^ rotate s.e 25) + choice + k + w
  let t2 := (rotate s.a 2 ^^^ rotate s.a 13 ^^^ rotate s.a 22) + majority
  ⟨t1 + t2, s.a, s.b, s.c, s.d + t1, s.e, s.f, s.g⟩

/-- The sum, word by word. -/
def add (s t : Chain) : Chain :=
  ⟨s.a + t.a, s.b + t.b, s.c + t.c, s.d + t.d, s.e + t.e, s.f + t.f, s.g + t.g, s.h + t.h⟩

/-- The words in order. -/
def words (s : Chain) : List UInt32 := [s.a, s.b, s.c, s.d, s.e, s.f, s.g, s.h]

end Chain

/-- Sixteen words of a schedule in a row. -/
structure Schedule where
  w0 : UInt32
  w1 : UInt32
  w2 : UInt32
  w3 : UInt32
  w4 : UInt32
  w5 : UInt32
  w6 : UInt32
  w7 : UInt32
  w8 : UInt32
  w9 : UInt32
  w10 : UInt32
  w11 : UInt32
  w12 : UInt32
  w13 : UInt32
  w14 : UInt32
  w15 : UInt32
deriving DecidableEq, Repr

/-- The schedule one word further on: the first word leaves, and the recurrence gives the last. -/
def Schedule.next (w : Schedule) : Schedule where
  w0 := w.w1
  w1 := w.w2
  w2 := w.w3
  w3 := w.w4
  w4 := w.w5
  w5 := w.w6
  w6 := w.w7
  w7 := w.w8
  w8 := w.w9
  w9 := w.w10
  w10 := w.w11
  w11 := w.w12
  w12 := w.w13
  w13 := w.w14
  w14 := w.w15
  w15 := w.w0 + (rotate w.w1 7 ^^^ rotate w.w1 18 ^^^ (w.w1 >>> 3)) + w.w9 +
    (rotate w.w14 17 ^^^ rotate w.w14 19 ^^^ (w.w14 >>> 10))

/-- Four bytes as a word, most significant first. -/
def word (b0 b1 b2 b3 : UInt8) : UInt32 :=
  (b0.toUInt32 <<< 24) ||| (b1.toUInt32 <<< 16) ||| (b2.toUInt32 <<< 8) ||| b3.toUInt32

/-- The words that a block spells. -/
def wordsOf : Bytes → List UInt32
  | b0 :: b1 :: b2 :: b3 :: rest => word b0 b1 b2 b3 :: wordsOf rest
  | _ => []

/-- A word as four bytes, most significant first. -/
def bytesOf (w : UInt32) : Bytes :=
  [(w >>> 24).toUInt8, (w >>> 16).toUInt8, (w >>> 8).toUInt8, w.toUInt8]

/-- The first words of the schedule of a block of 64 bytes. -/
def Schedule.ofBlock (block : Bytes) : Schedule :=
  match wordsOf block with
  | [w0, w1, w2, w3, w4, w5, w6, w7, w8, w9, w10, w11, w12, w13, w14, w15] =>
    ⟨w0, w1, w2, w3, w4, w5, w6, w7, w8, w9, w10, w11, w12, w13, w14, w15⟩
  | _ => ⟨0, 0, 0, 0, 0, 0, 0, 0, 0, 0, 0, 0, 0, 0, 0, 0⟩

/-- One round for each constant, each with the next word of the schedule. -/
def Chain.rounds : List UInt32 → Chain → Schedule → Chain
  | [], s, _ => s
  | k :: ks, s, w => Chain.rounds ks (s.round k w.w0) w.next

/-- Takes one block into the chaining words. -/
def absorb (s : Chain) (block : Bytes) : Chain :=
  s.add (Chain.rounds constants s (Schedule.ofBlock block))

/-- What is appended to a message of a given length: a one bit, zeros, and the length in bits. -/
def padding (length : Nat) : Bytes :=
  0x80 :: List.replicate ((119 - length % 64) % 64) 0 ++ Bytes.ofNatBig 8 (8 * length)

/-- Takes the whole blocks at the head of a byte string into the chaining words; the answer has the
bytes that are left. -/
def absorbAll (s : Chain) (b : Bytes) : Chain × Bytes :=
  match _h : b.drop 63 with
  | [] => (s, b)
  | _ :: rest => absorbAll (absorb s (b.take 64)) rest
termination_by b.length
decreasing_by
  have := congrArg List.length _h
  rw [List.length_drop, List.length_cons] at this
  omega

/-- The digest of a message: its whole blocks are taken first, then what is left with the padding. -/
def digest (message : Bytes) : Bytes :=
  let (s, left) := absorbAll Chain.initial message
  (absorbAll s (left ++ padding message.length)).1.words.flatMap bytesOf

theorem length_digest (message : Bytes) : (digest message).length = 32 := by
  simp [digest, Chain.words, bytesOf]

end Metering.Sha256
