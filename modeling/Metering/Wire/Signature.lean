import Metering.Digest.Hmac
import Metering.Bytes.Hex
import Metering.Text.Blank
import Metering.Failure.Basic

/-!
Signatures of bodies under a shared key.

A signature is the keyed digest of a body in hexadecimal. It is accepted in either case and
between blanks, but only whole: a part of a digest is no signature.

Main statement: a signature is accepted exactly when it spells the digest (`verify_eq_ok_iff`).
-/
namespace Metering

/-- A key that two ends share. -/
structure SigningKey where
  secret : Bytes
deriving DecidableEq, Repr

namespace SigningKey

/-- The signature of a body. -/
def sign (key : SigningKey) (body : Bytes) : String := Hex.text (Hmac.tag key.secret body)

/-- Checks the signature that came with a body. -/
def verify (key : SigningKey) (body : Bytes) : Option String → Except Failure Unit
  | none => .error ⟨.integrity, .missingTag⟩
  | some given =>
    match Hex.decode? (Text.trim given).toList with
    | none => .error ⟨.integrity, .malformedTag⟩
    | some tag =>
      if tag = Hmac.tag key.secret body then .ok () else .error ⟨.integrity, .otherTag⟩

theorem verify_eq_ok_iff {key : SigningKey} {body : Bytes} {given : Option String} :
    key.verify body given = .ok () ↔
      ∃ s, given = some s ∧
        Hex.decode? (Text.trim s).toList = some (Hmac.tag key.secret body) := by
  cases given with
  | none => simp [verify]
  | some s =>
    cases h : Hex.decode? (Text.trim s).toList with
    | none => simp [verify, h]
    | some tag => simp [verify, h]

end SigningKey
end Metering
