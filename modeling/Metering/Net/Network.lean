import Metering.Net.Address
import Metering.Text.Blank
import Metering.Failure.Basic

/-!
Networks, and the check that a caller is in the trusted one.

A network is an address and the length of the prefix that its members share. The address need
not end in zeros and is shown as it was given. Main statement: an address is in a network exactly
when both are of one version and their first bits agree (`contains_v4_iff`, `contains_v6_iff`).
-/
namespace Metering

/-- The addresses that share the first `length` bits of a given one. -/
inductive Network
  | v4 (bits : BitVec 32) (length : Nat)
  | v6 (bits : BitVec 128) (length : Nat)
deriving DecidableEq, Repr

namespace Network

/-- In a network's text numbers may start with zeros and `::` may stand for nothing. -/
def grammar : AddressGrammar := ⟨true, 0⟩

/-- What is said of a text that is no network. -/
def syntaxReason : String := "invalid IP address syntax"

open IpAddress in
/-- Reads a slash and a prefix length of at most `width`. -/
def scanLength (digits width : Nat) : Scan Nat := fun cs => do
  let (_, cs) ← scanChar '/' cs
  scanNumber 10 digits (width + 1) true cs

open IpAddress in
/-- The network that a text spells. -/
def ofText? (s : String) : Option Network :=
  let v4 : Option Network := do
    let (n, rest) ← scanV4 grammar s.toList
    let length ← whole (scanLength 2 32) rest
    return .v4 (.ofNat 32 n) length
  v4.or do
    let (n, rest) ← scanV6 grammar s.toList
    let length ← whole (scanLength 3 128) rest
    return .v6 (.ofNat 128 n) length

/-- The trusted network of a setting. -/
def parse (s : String) : Except Failure Network :=
  match ofText? (Text.trim s) with
  | some n => .ok n
  | none => .error (.invalid (.networkText s syntaxReason))

/-- The text of a network. -/
def text : Network → String
  | v4 bits length => s!"{(IpAddress.v4 bits).text}/{length}"
  | v6 bits length => s!"{(IpAddress.v6 bits).text}/{length}"

/-- Whether an address is in the network. -/
def contains : Network → IpAddress → Bool
  | v4 net length, .v4 ip => net >>> (32 - length) == ip >>> (32 - length)
  | v6 net length, .v6 ip => net >>> (128 - length) == ip >>> (128 - length)
  | _, _ => false

/-- Refuses a caller whose address is missing, unreadable or outside the network. -/
def check (n : Network) (address : Option String) : Except Failure Unit :=
  match address.map Text.trim with
  | none | some "" => .error (.forbidden .missingAddress)
  | some raw =>
    match IpAddress.ofText? raw with
    | none => .error (.forbidden (.badAddress raw))
    | some ip =>
      if n.contains ip then .ok ()
      else .error (.forbidden (.outsideNetwork ip.text n.text))

theorem contains_v4_iff {net ip : BitVec 32} {length : Nat} :
    (v4 net length).contains (.v4 ip) = true ↔ net >>> (32 - length) = ip >>> (32 - length) := by
  simp [contains]

theorem contains_v6_iff {net ip : BitVec 128} {length : Nat} :
    (v6 net length).contains (.v6 ip) = true ↔ net >>> (128 - length) = ip >>> (128 - length) := by
  simp [contains]

end Network
end Metering
