import Metering.Key.Der
import Metering.Key.Pem
import Metering.Failure.Basic

/-!
Keys for sealing and opening blocks.

A public key is an odd modulus with a smaller odd exponent. A private key adds the exponent for
opening and the two factors of the modulus, which must fit together. Both are read from text: a
public key in the general form for public keys, a private key in its own form or in the general
form for private keys.

Main statement: powers are computed as they are defined (`powMod_eq`).
-/
namespace Metering

/-- A power modulo `m`, by squaring. -/
def powMod (base m : Nat) (exponent : Nat) : Nat :=
  if h : exponent = 0 then 1 % m
  else
    let half := powMod base m (exponent / 2)
    let square := half * half % m
    if exponent % 2 = 1 then square * base % m else square
termination_by exponent
decreasing_by omega

theorem powMod_eq (base m exponent : Nat) : powMod base m exponent = Nat.pow base exponent % m := by
  induction exponent using Nat.strongRecOn with
  | ind e ih =>
    rw [powMod]
    split
    · rename_i h; simp [h]
    · rename_i h
      rw [ih (e / 2) (by omega)]
      have hsq : Nat.pow base (e / 2) % m * (Nat.pow base (e / 2) % m) % m =
          Nat.pow base (2 * (e / 2)) % m := by
        rw [← Nat.mul_mod, Nat.two_mul]
        exact congrArg (· % m) (Nat.pow_add base (e / 2) (e / 2)).symm
      dsimp only
      rw [hsq]
      split
      · rename_i hodd
        have he : Nat.pow base (2 * (e / 2)) * base = Nat.pow base e :=
          congrArg (Nat.pow base) (show 2 * (e / 2) + 1 = e by omega)
        rw [Nat.mod_mul_mod, he]
      · rename_i heven
        rw [show 2 * (e / 2) = e by omega]

/-- A key that seals. -/
structure PublicKey where
  modulus : Nat
  exponent : Nat
  exponent_lt : exponent < modulus
deriving DecidableEq

/-- A key that opens. -/
structure PrivateKey where
  publicKey : PublicKey
  exponent : Nat
  factors : Nat × Nat
deriving DecidableEq

/-- The object identifier of the algorithm. -/
def rsaIdentifier : Bytes := [0x2a, 0x86, 0x48, 0x86, 0xf7, 0x0d, 0x01, 0x01, 0x01]

namespace PublicKey

/-- The greatest length of a modulus in bits. -/
def maxBits : Nat := 4096

/-- The bound on exponents. -/
def exponentBound : Nat := 0x200000000

/-- The length of a block in bytes. -/
def size (k : PublicKey) : Nat := (k.modulus.log2 + 8) / 8

/-- The key of two numbers, if they are fit for one. -/
def ofNumbers? (modulus exponent : Nat) : Option PublicKey :=
  if h : exponent < modulus then
    if modulus.log2 < maxBits ∧ modulus % 2 = 1 ∧ exponent % 2 = 1 ∧ 2 ≤ exponent ∧
        exponent < exponentBound then some ⟨modulus, exponent, h⟩
    else none
  else none

open Der in
/-- The algorithm that a key names, with its empty parameter. -/
def algorithm : Reader Unit := sequence do
  let identifier ← element identifierTag
  let parameter ← element nullTag
  if identifier = rsaIdentifier ∧ parameter = [] then pure () else failure

open Der in
/-- The two numbers of a key. -/
def numbers : Reader (Nat × Nat) := sequence do
  return (← number, ← number)

open Der in
/-- The general form of a public key. -/
def document : Reader (Nat × Nat) := sequence do
  algorithm
  match whole numbers (← bitString) with
  | some ns => pure ns
  | none => failure

/-- The key that a text holds. -/
def ofPem? (text : Bytes) : Option PublicKey := do
  let ns ← Der.whole document (← Pem.decode? "PUBLIC KEY" text)
  ofNumbers? ns.1 ns.2

/-- Reads a key from a setting. -/
def parse (text : Bytes) : Except Failure PublicKey :=
  match ofPem? text with
  | some k => .ok k
  | none => .error ⟨.key, .publicKey "no usable key"⟩

end PublicKey

namespace PrivateKey

/-- The length of a block in bytes. -/
def size (k : PrivateKey) : Nat := k.publicKey.size

/-- Whether an exponent undoes another one modulo a factor. -/
def undoes (e d factor : Nat) : Bool := 1 < factor && e * d % (factor - 1) == 1

/-- The key of its numbers, if they fit together. -/
def ofNumbers? (modulus exponent d p q : Nat) : Option PrivateKey := do
  let k ← PublicKey.ofNumbers? modulus exponent
  if p * q = modulus ∧ undoes exponent d p ∧ undoes exponent d q then some ⟨k, d, (p, q)⟩ else none

open Der in
/-- The numbers of a key of two factors, in the key's own form. -/
def numbers : Reader (Nat × Nat × Nat × Nat × Nat) := sequence do
  let version ← number
  let modulus ← number
  let e ← number
  let d ← number
  let p ← number
  let q ← number
  let _ ← number
  let _ ← number
  let _ ← number
  if version = 0 then return (modulus, e, d, p, q) else failure

/-- Whether a tag is one of the optional elements of the general form. -/
def isOptionalTag (tag : UInt8) : Bool := tag &&& 0xc0 == 0x80

open Der in
/-- The optional elements at the end of the general form; the answer says whether the public key
is among them. -/
def options : Nat → Reader Bool
  | 0 => pure false
  | fuel + 1 => do
    if (← rest) = [] then pure false
    else
      let (tag, _) ← any
      if !isOptionalTag tag then failure
      let more ← options fuel
      return more || tag &&& 0x1f == 1

open Der in
/-- The general form of a private key. -/
def document : Reader (Nat × Nat × Nat × Nat × Nat) := sequence do
  let version ← number
  PublicKey.algorithm
  let contents ← element octetStringTag
  let hasPublic ← options (← rest).length
  if version = (if hasPublic then 1 else 0) then
    match whole numbers contents with
    | some ns => pure ns
    | none => failure
  else failure

/-- The key that a text holds. -/
def ofPem? (text : Bytes) : Option PrivateKey :=
  let own : Option PrivateKey := do
    let (n, e, d, p, q) ← Der.whole numbers (← Pem.decode? "RSA PRIVATE KEY" text)
    ofNumbers? n e d p q
  own.or do
    let (n, e, d, p, q) ← Der.whole document (← Pem.decode? "PRIVATE KEY" text)
    ofNumbers? n e d p q

/-- Reads a key from a setting. -/
def parse (text : Bytes) : Except Failure PrivateKey :=
  match ofPem? text with
  | some k => .ok k
  | none => .error ⟨.key, .privateKey "no usable key"⟩

end PrivateKey
end Metering
