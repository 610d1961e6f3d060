import Metering.Bytes.Chunks
import Metering.Key.Rsa

/-!
Bodies sealed block by block.

A body is cut into pieces that leave room for eleven bytes of padding in a block, and every piece
is padded and raised to the power of the public key. Opening undoes this block by block; the
first block that does not open is named. The padding is drawn from a source, of which only the
law matters that it is never zero.

A key of at most eleven bytes has no room at all. Sealing with it has no answer, which is not a
refusal but stops the process (`SealFault.stops`).
-/
namespace Metering

/-- Padding for each block and each place in it; zero counts as one. -/
abbrev PaddingSource := Nat → Nat → UInt8

/-- Why nothing was sealed. -/
inductive SealFault
  | refused (f : Failure)
  | stops
deriving DecidableEq, Repr

/-- What padding takes up in a block. -/
def paddingOverhead : Nat := 11

namespace PublicKey

/-- How many bytes of a body a block carries, if the key has room for any padding. -/
def room? (k : PublicKey) : Option Nat :=
  if paddingOverhead ≤ k.size then some (k.size - paddingOverhead) else none

/-- `count` bytes of padding, none of them zero. -/
def padding (source : Nat → UInt8) (count : Nat) : Bytes :=
  (List.range count).map fun i => if source i = 0 then 1 else source i

/-- A piece of a body as a block of its own, before it is sealed. -/
def padded (k : PublicKey) (source : Nat → UInt8) (piece : Bytes) : Bytes :=
  0 :: 2 :: padding source (k.size - 3 - piece.length) ++ 0 :: piece

/-- Seals a piece that fits. -/
def sealBlock (k : PublicKey) (source : Nat → UInt8) (piece : Bytes) : Bytes :=
  Bytes.ofNatBig k.size
    (powMod (Bytes.toNatBig (k.padded source piece)) k.modulus k.exponent)

/-- Seals a whole body. -/
def sealBody (k : PublicKey) (source : PaddingSource) (body : Bytes) : Except SealFault Bytes :=
  match k.room? with
  | none | some 0 => .error .stops
  | some room =>
    .ok ((Bytes.chunks room body).zipIdx.flatMap fun e => k.sealBlock (source e.2) e.1)

end PublicKey

namespace PrivateKey

/-- What is said of a block that does not open. -/
def blockReason : String := "decryption error"

/-- Takes the padding off: two leading bytes, eight or more that are not zero, and a zero. -/
def unpad? : Bytes → Option Bytes
  | 0 :: 2 :: rest =>
    let padding := rest.takeWhile (· != 0)
    if padding.length < 8 then none
    else match rest.drop padding.length with
      | _ :: piece => some piece
      | [] => none
  | _ => none

/-- Opens one block. -/
def openBlock? (k : PrivateKey) (block : Bytes) : Option Bytes :=
  let c := Bytes.toNatBig block
  if k.publicKey.modulus ≤ c ∨ k.size < paddingOverhead then none
  else unpad? (Bytes.ofNatBig k.size (powMod c k.publicKey.modulus k.exponent))

/-- Opens blocks in order, from the one with number `index` on. -/
def openBlocks (k : PrivateKey) : Nat → List Bytes → Except Failure Bytes
  | _, [] => .ok []
  | index, block :: more =>
    match k.openBlock? block with
    | none => .error ⟨.decryption, .sealedBlock index blockReason⟩
    | some piece =>
      match openBlocks k (index + 1) more with
      | .ok rest => .ok (piece ++ rest)
      | .error e => .error e

/-- Opens a whole body. -/
def openBody (k : PrivateKey) (body : Bytes) : Except Failure Bytes :=
  if body.length % k.size ≠ 0 then .error ⟨.decryption, .sealedLength body.length k.size⟩
  else k.openBlocks 0 (Bytes.chunks k.size body)

end PrivateKey
end Metering
