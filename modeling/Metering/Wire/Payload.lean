import Metering.Wire.Gzip
import Metering.Wire.Sealing
import Metering.Wire.Signature

/-!
Payloads: bodies under the layers that two ends have agreed on.

The plain body is signed, then compressed, then sealed; a payload says which of these was done.
Compression is always done on the way out. The way back undoes sealing and compression as they
are marked, and checks the signature of the plain body last.

Main statements: the layers are taken off from the outside, and a fault of an outer layer is
reported before anything inside is looked at; what comes out is what the outer layers held, with
a good signature (`decode_eq_ok_iff`, `decode_of_unwrap`).
-/
namespace Metering

/-- The keys that an end holds; each layer is used if its key is there. -/
structure WireKeys where
  signing : Option SigningKey
  sealing : Option PublicKey
  opening : Option PrivateKey

/-- A body and the marks that describe it. -/
structure Payload where
  body : Bytes
  signature : Option String
  isCompressed : Bool
  isSealed : Bool
deriving DecidableEq, Repr

namespace WireKeys

/-- An end without keys. -/
def none : WireKeys := ⟨.none, .none, .none⟩

/-- The signature of a plain body, if there is a key for it. -/
def sign (k : WireKeys) (plain : Bytes) : Option String := k.signing.map fun s => s.sign plain

/-- Checks the signature of a plain body, if there is a key for it. -/
def verify (k : WireKeys) (plain : Bytes) (signature : Option String) : Except Failure Unit :=
  match k.signing with
  | some s => s.verify plain signature
  | .none => .ok ()

/-- Opens a body that is marked as sealed, if there is a key for it. -/
def openSealed (k : WireKeys) (body : Bytes) (isSealed : Bool) : Except Failure Bytes :=
  match k.opening, isSealed with
  | some key, true => key.openBody body
  | _, _ => .ok body

/-- Puts the layers on, with a given way of compressing. -/
def encodeWith (k : WireKeys) (compress : Bytes → Bytes) (source : PaddingSource) (plain : Bytes) :
    Except SealFault Payload :=
  let packed := compress plain
  match k.sealing with
  | .none => .ok ⟨packed, k.sign plain, true, false⟩
  | some key =>
    match key.sealBody source packed with
    | .ok body => .ok ⟨body, k.sign plain, true, true⟩
    | .error e => .error e

/-- Puts the layers on. -/
def encode (k : WireKeys) (source : PaddingSource) (plain : Bytes) : Except SealFault Payload :=
  k.encodeWith Gzip.compress source plain

/-- What a compressed body stands for. -/
def inflate (body : Bytes) : Except Failure Bytes :=
  match Gzip.decompress body with
  | .ok plain => .ok plain
  | .error e => .error ⟨.compression, .gzip e.message⟩

/-- Takes the outer layers off. -/
def unwrap (k : WireKeys) (p : Payload) : Except Failure Bytes := do
  let body ← k.openSealed p.body p.isSealed
  if p.isCompressed then inflate body else return body

/-- Takes all layers off. -/
def decode (k : WireKeys) (p : Payload) : Except Failure Bytes := do
  let plain ← k.unwrap p
  k.verify plain p.signature
  return plain

theorem decode_eq_ok_iff {k : WireKeys} {p : Payload} {plain : Bytes} :
    k.decode p = .ok plain ↔ k.unwrap p = .ok plain ∧ k.verify plain p.signature = .ok () := by
  unfold decode
  cases h : k.unwrap p with
  | error e => simp [bind, Except.bind]
  | ok b =>
    cases hv : k.verify b p.signature with
    | error e =>
      simp only [bind, Except.bind, hv, Except.ok.injEq]
      constructor
      · intro h; simp at h
      · rintro ⟨rfl, h⟩; simp [hv] at h
    | ok u =>
      simp only [bind, Except.bind, hv, pure, Except.pure, Except.ok.injEq]
      constructor
      · rintro rfl; exact ⟨rfl, hv⟩
      · exact fun h => h.1

/-- Once the outer layers are off, the signature decides. -/
theorem decode_of_unwrap {k : WireKeys} {p : Payload} {plain : Bytes}
    (h : k.unwrap p = .ok plain) :
    k.decode p = (k.verify plain p.signature).map fun _ => plain := by
  unfold decode
  rw [h]
  show (do k.verify plain p.signature; pure plain) = _
  cases k.verify plain p.signature <;> rfl

end WireKeys
end Metering
