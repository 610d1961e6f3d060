import Metering.Text.Blank
import Metering.Bytes.Basic

/-!
Addresses of resources.

An address is a path with an optional query, or an authority alone, or a scheme, an authority and
a path. Each part admits certain bytes. A fragment at the end is dropped.
-/
namespace Metering

/-- Why a text is no address of a resource. -/
inductive UriFault
  | empty
  | tooLong
  | schemeTooLong
  | badByte
  | badAuthority
  | badForm
deriving DecidableEq, Repr

/-- The address of a resource. -/
structure Uri where
  scheme : Option String
  authority : String
  path : String
  query : Option String
deriving DecidableEq, Repr

namespace UriFault

def message : UriFault → String
  | empty => "empty string"
  | tooLong => "uri too long"
  | schemeTooLong => "scheme too long"
  | badByte => "invalid uri character"
  | badAuthority => "invalid authority"
  | badForm => "invalid format"

end UriFault

namespace Uri

/-- The greatest length of an address. -/
def maxLength : Nat := 65534

/-- The greatest length of a scheme. -/
def maxScheme : Nat := 64

/-- Whether a byte is a letter or a digit. -/
def isAlphanumeric (b : UInt8) : Bool :=
  (0x30 ≤ b && b ≤ 0x39) || (0x41 ≤ b && b ≤ 0x5a) || (0x61 ≤ b && b ≤ 0x7a)

/-- Whether a byte can stand in an authority or end it, percent signs apart. -/
def isAuthorityByte (b : UInt8) : Bool :=
  isAlphanumeric b || (Bytes.ofText "!#$&'()*+,-./:;=?@[]_~").contains b

/-- Whether a byte ends an authority. -/
def endsAuthority (b : UInt8) : Bool := b == 0x2f || b == 0x3f || b == 0x23

/-- Whether a byte can stand in a path. -/
def isPathByte (b : UInt8) : Bool :=
  b == 0x21 || b == 0x22 || (0x24 ≤ b && b ≤ 0x3b) || b == 0x3d || (0x40 ≤ b && b ≤ 0x5f) ||
    (0x61 ≤ b && b ≤ 0x7e) || 0x7f ≤ b

/-- Whether a byte can stand in a query. -/
def isQueryByte (b : UInt8) : Bool :=
  b == 0x21 || (0x24 ≤ b && b ≤ 0x3b) || b == 0x3d || 0x3f ≤ b

/-! ## Parts -/

/-- What has been seen of an authority: colons, brackets and percent signs that count. -/
structure AuthorityScan where
  colons : Nat
  opened : Bool
  closed : Bool
  percent : Bool
  endsInAt : Bool

namespace AuthorityScan

def start : AuthorityScan := ⟨0, false, false, false, false⟩

/-- The most colons before a bracket or an at sign makes them not count. -/
def maxColons : Nat := 8

/-- Takes one byte. -/
def step (s : AuthorityScan) (b : UInt8) : Except UriFault AuthorityScan :=
  let s := { s with endsInAt := false }
  if b = 0x3a then
    if maxColons ≤ s.colons then .error .badAuthority else .ok { s with colons := s.colons + 1 }
  else if b = 0x5b then
    if s.percent || s.opened then .error .badAuthority else .ok { s with opened := true }
  else if b = 0x5d then
    if !s.opened || s.closed then .error .badAuthority
    else .ok { s with closed := true, colons := 0, percent := false }
  else if b = 0x40 then .ok { s with endsInAt := true, colons := 0, percent := false }
  else if b = 0x25 then .ok { s with percent := true }
  else if isAuthorityByte b then .ok s
  else .error .badByte

/-- Whether what was seen is an authority. -/
def isGood (s : AuthorityScan) : Bool :=
  s.opened == s.closed && s.colons ≤ 1 && !s.endsInAt && !s.percent

end AuthorityScan

/-- Splits the authority off the head, if it is a good one. -/
def splitAuthority (b : Bytes) : Except UriFault (Bytes × Bytes) :=
  if b = [] then .error .empty
  else
    let head := b.takeWhile fun x => !endsAuthority x
    match head.foldlM AuthorityScan.step .start with
    | .error e => .error e
    | .ok s => if s.isGood then .ok (head, b.drop head.length) else .error .badAuthority

/-- The text of bytes that must be well formed. -/
def textOf (b : Bytes) : Except UriFault String :=
  match Bytes.toText? b with
  | some s => .ok s
  | none => .error .badByte

/-- Reads a path and its query. -/
def pathAndQuery (b : Bytes) : Except UriFault (String × Option String) := do
  let path := b.takeWhile fun x => x != 0x3f && x != 0x23
  if !path.all isPathByte then throw .badByte
  match b.drop path.length with
  | 0x3f :: rest =>
    let query := rest.takeWhile (· != 0x23)
    if !query.all isQueryByte then throw .badByte
    return (← textOf path, some (← textOf query))
  | _ => return (← textOf path, none)

/-- Whether a byte can stand in a scheme. -/
def isSchemeByte (b : UInt8) : Bool :=
  isAlphanumeric b || b == 0x2b || b == 0x2d || b == 0x2e

/-- Splits a scheme and the two slashes off the head, if they are there. -/
def splitScheme (b : Bytes) : Except UriFault (Option String × Bytes) :=
  let name := b.takeWhile isSchemeByte
  let lower := String.ofList (name.map fun x => (Char.ofNat x.toNat).toLower)
  if (Bytes.ofText "://").isPrefixOf (b.drop name.length) then
    if lower = "http" ∨ lower = "https" then .ok (some lower, b.drop (name.length + 3))
    else if maxScheme < name.length then .error .schemeTooLong
    else if b.length ≤ 3 then .ok (none, b)
    else .ok (some (String.ofList (name.map fun x => Char.ofNat x.toNat)), b.drop (name.length + 3))
  else .ok (none, b)

/-- The address that a text spells. -/
def parse (s : String) : Except UriFault Uri := do
  let b := Bytes.ofText s
  if maxLength < b.length then throw .tooLong
  if b = [] then throw .empty
  if b = [0x2a] then return ⟨none, "", "*", none⟩
  if b.head? = some 0x2f then
    let (path, query) ← pathAndQuery b
    return ⟨none, "", path, query⟩
  let (scheme, rest) ← splitScheme b
  let (authority, left) ← splitAuthority rest
  match scheme with
  | none =>
    if left ≠ [] then throw (if b.length = 1 then .badByte else .badForm)
    return ⟨none, ← textOf authority, "", none⟩
  | some scheme =>
    if authority = [] then throw .badForm
    let (path, query) ← pathAndQuery left
    return ⟨some scheme, ← textOf authority, if path = "" then "/" else path, query⟩

/-- The text of an address. -/
def text (u : Uri) : String :=
  let lead := match u.scheme with
    | some s => s ++ "://"
    | none => ""
  let tail := match u.query with
    | some q => "?" ++ q
    | none => ""
  lead ++ u.authority ++ u.path ++ tail

end Uri
end Metering
