import Metering.Number.Digits
import Metering.Bytes.Hex

/-!
Internet addresses and their texts.

An address of version 4 is written as four decimal numbers. One of version 6 is written as eight
groups of hexadecimal digits, where the first of the longest runs of zero groups is left out
(`::`) if it has at least two groups; the addresses that stand for version 4 end in four decimal
numbers. Reading takes every usual spelling.
-/
namespace Metering

/-- An internet address. -/
inductive IpAddress
  | v4 (bits : BitVec 32)
  | v6 (bits : BitVec 128)
deriving DecidableEq, Repr

/-- Where the grammars of addresses differ. -/
structure AddressGrammar where
  /-- Whether a decimal number may start with a zero. -/
  leadingZeros : Bool
  /-- The fewest groups that `::` may stand for. -/
  leastGap : Nat
deriving DecidableEq, Repr

namespace IpAddress

/-- How single addresses are read. -/
def strict : AddressGrammar := ⟨false, 1⟩

/-! ## Writing -/

/-- The number at place `index` among the `size`-bit parts of a number, the last being 0. -/
def part (size n index : Nat) : Nat := n / Nat.pow 2 (size * index) % Nat.pow 2 size

/-- Joins texts with a separator. -/
def join (sep : List Char) : List (List Char) → List Char
  | [] => []
  | [x] => x
  | x :: xs => x ++ sep ++ join sep xs

/-- Four decimal numbers. -/
def showV4 (n : Nat) : List Char :=
  join ['.'] ([3, 2, 1, 0].map fun i => Digits.toDigits (part 8 n i))

/-- The groups of an address of version 6. -/
def groups (n : Nat) : List Nat := [7, 6, 5, 4, 3, 2, 1, 0].map (part 16 n)

/-- The place and the length of the first longest run of zeros, from an index on. -/
def longestRun : Nat → List Nat → Nat × Nat
  | index, [] => (index, 0)
  | index, g :: gs =>
    let here := ((g :: gs).takeWhile (· == 0)).length
    let later := longestRun (index + 1) gs
    if later.2 ≤ here then (index, here) else later

/-- Groups as hexadecimal numbers between colons. -/
def showGroups (gs : List Nat) : List Char := join [':'] (gs.map (Nat.toDigits 16))

/-- The groups, with the longest run of zeros left out. -/
def showV6 (n : Nat) : List Char :=
  if n / 0x100000000 = 0xffff then "::ffff:".toList ++ showV4 (n % 0x100000000)
  else
    let gs := groups n
    let (index, length) := longestRun 0 gs
    if 1 < length then showGroups (gs.take index) ++ [':', ':'] ++ showGroups (gs.drop (index + length))
    else showGroups gs

/-- The text of an address. -/
def text : IpAddress → String
  | v4 bits => String.ofList (showV4 bits.toNat)
  | v6 bits => String.ofList (showV6 bits.toNat)

/-! ## Reading -/

/-- Reads something off the head of a text. -/
abbrev Scan (α : Type) := List Char → Option (α × List Char)

/-- Reads one given character. -/
def scanChar (c : Char) : Scan Unit
  | x :: rest => if x = c then some ((), rest) else none
  | [] => none

/-- The value of a digit in a base up to sixteen. -/
def digitValue? (base : Nat) (c : Char) : Option Nat :=
  (Hex.value? c).filter (· < base)

/-- Reads all digits at the head: a number below `limit` of at most `most` digits. -/
def scanNumber (base most limit : Nat) (leadingZeros : Bool) : Scan Nat := fun cs =>
  let ds := cs.takeWhile fun c => (digitValue? base c).isSome
  let n := ds.foldl (fun n c => n * base + (digitValue? base c).getD 0) 0
  if ds = [] ∨ most < ds.length ∨ limit ≤ n then none
  else if !leadingZeros ∧ ds.head? = some '0' ∧ 1 < ds.length then none
  else some (n, cs.drop ds.length)

/-- Reads four decimal numbers. -/
def scanV4 (g : AddressGrammar) : Scan Nat := fun cs => do
  let octet := scanNumber 10 3 256 g.leadingZeros
  let (a, cs) ← octet cs
  let (_, cs) ← scanChar '.' cs
  let (b, cs) ← octet cs
  let (_, cs) ← scanChar '.' cs
  let (c, cs) ← octet cs
  let (_, cs) ← scanChar '.' cs
  let (d, cs) ← octet cs
  return (((a * 256 + b) * 256 + c) * 256 + d, cs)

/-- Reads up to `limit` groups, each but the first behind a colon. Where two places are left,
four decimal numbers may end the run. The answer says whether they did. -/
def scanGroups (g : AddressGrammar) : Nat → Bool → List Char → List Nat × Bool × List Char
  | 0, _, cs => ([], false, cs)
  | limit + 1, first, cs =>
    let behind : Option (List Char) := if first then some cs else (scanChar ':' cs).map Prod.snd
    match behind with
    | none => ([], false, cs)
    | some inner =>
      match (if 0 < limit then scanV4 g inner else none) with
      | some (n, rest) => ([n / 65536, n % 65536], true, rest)
      | none =>
        match scanNumber 16 4 65536 true inner with
        | some (n, rest) =>
          let (more, ended, rest) := scanGroups g limit false rest
          (n :: more, ended, rest)
        | none => ([], false, cs)

/-- The number that groups spell. -/
def ofGroups (gs : List Nat) : Nat := gs.foldl (fun n x => n * 65536 + x) 0

/-- Reads an address of version 6. -/
def scanV6 (g : AddressGrammar) : Scan Nat := fun cs =>
  let (head, ended, rest) := scanGroups g 8 true cs
  if head.length = 8 then some (ofGroups head, rest)
  else if ended then none
  else do
    let (_, rest) ← scanChar ':' rest
    let (_, rest) ← scanChar ':' rest
    let (tail, _, rest) := scanGroups g (8 - (head.length + g.leastGap)) true rest
    let gap := List.replicate (8 - head.length - tail.length) 0
    return (ofGroups (head ++ gap ++ tail), rest)

/-- What a text spells as a whole. -/
def whole (s : Scan α) (cs : List Char) : Option α :=
  match s cs with
  | some (a, []) => some a
  | _ => none

/-- The address that a text spells. -/
def ofText? (s : String) : Option IpAddress :=
  match whole (scanV4 strict) s.toList with
  | some n => some (.v4 (.ofNat 32 n))
  | none => (whole (scanV6 strict) s.toList).map fun n => .v6 (.ofNat 128 n)

end IpAddress

/-- An address with a port, and for version 6 the number of the network it is seen on. -/
structure SocketAddress where
  address : IpAddress
  scope : Nat
  port : Nat
deriving DecidableEq, Repr

namespace SocketAddress

open IpAddress

/-- What is said of a text that is no socket address. -/
def syntaxReason : String := "invalid socket address syntax"

/-- Reads a colon and a port. -/
def scanPort : Scan Nat := fun cs => do
  let (_, cs) ← scanChar ':' cs
  scanNumber 10 cs.length 65536 true cs

/-- The socket address that a text spells. -/
def ofText? (s : String) : Option SocketAddress :=
  let v4 : Option SocketAddress := do
    let (n, rest) ← scanV4 strict s.toList
    let port ← whole scanPort rest
    return ⟨.v4 (.ofNat 32 n), 0, port⟩
  v4.or do
    let (_, rest) ← scanChar '[' s.toList
    let (n, rest) ← scanV6 strict rest
    let (scope, rest) := match rest with
      | '%' :: more => ((scanNumber 10 more.length 0x100000000 true more).getD (0, rest))
      | _ => (0, rest)
    let (_, rest) ← scanChar ']' rest
    let port ← whole scanPort rest
    return ⟨.v6 (.ofNat 128 n), scope, port⟩

/-- The text of a socket address. -/
def text (a : SocketAddress) : String :=
  match a.address with
  | .v4 _ => s!"{a.address.text}:{a.port}"
  | .v6 _ =>
    if a.scope = 0 then s!"[{a.address.text}]:{a.port}"
    else s!"[{a.address.text}%{a.scope}]:{a.port}"

end SocketAddress
end Metering
