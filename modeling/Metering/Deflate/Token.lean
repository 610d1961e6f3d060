import Metering.Deflate.Bits

/-!
Tokens: bytes as they are, and copies of what came before.

A copy says how far back it starts and how long it is; it may reach into itself, which repeats
what stands there. What lies before the first byte counts as zeros. Lengths and distances are
coded by a class, which gives the least value, and a field for what is added to it.
-/
namespace Metering

/-- A byte, or a copy of `length` bytes that start `distance` bytes back. -/
inductive Token
  | literal (b : UInt8)
  | copy (length distance : Nat)
deriving DecidableEq, Repr

/-- The output so far, from which copies are taken. -/
abbrev Window := Array UInt8

namespace Window

/-- The byte that lies `distance` bytes back. -/
def back (out : Window) (distance : Nat) : UInt8 :=
  if distance ≤ out.size then out.getD (out.size - distance) 0 else 0

/-- Appends a copy. -/
def copy (out : Window) (distance : Nat) : Nat → Window
  | 0 => out
  | length + 1 => copy (out.push (out.back distance)) distance length

/-- Appends what a token stands for. -/
def add (out : Window) : Token → Window
  | .literal b => out.push b
  | .copy length distance => out.copy distance length

end Window

/-- Classes of values: the least value of each and the width of the field that is added. -/
abbrev ClassTable := List (Nat × Nat)

namespace ClassTable

/-- The classes of lengths. The last one holds the greatest length alone. -/
def lengths : ClassTable :=
  [(3, 0), (4, 0), (5, 0), (6, 0), (7, 0), (8, 0), (9, 0), (10, 0), (11, 1), (13, 1), (15, 1),
   (17, 1), (19, 2), (23, 2), (27, 2), (31, 2), (35, 3), (43, 3), (51, 3), (59, 3), (67, 4),
   (83, 4), (99, 4), (115, 4), (131, 5), (163, 5), (195, 5), (227, 5), (258, 0)]

/-- The classes of distances. -/
def distances : ClassTable :=
  [(1, 0), (2, 0), (3, 0), (4, 0), (5, 1), (7, 1), (9, 2), (13, 2), (17, 3), (25, 3), (33, 4),
   (49, 4), (65, 5), (97, 5), (129, 6), (193, 6), (257, 7), (385, 7), (513, 8), (769, 8),
   (1025, 9), (1537, 9), (2049, 10), (3073, 10), (4097, 11), (6145, 11), (8193, 12), (12289, 12),
   (16385, 13), (24577, 13)]

/-- The last class whose least value is at most `n`: its number and its entry. -/
def classOf (table : ClassTable) (n : Nat) : Nat × Nat × Nat :=
  table.zipIdx.foldl (fun found e => if e.1.1 ≤ n then (e.2, e.1) else found) (0, 0, 0)

/-- Reads the value of a class. -/
def readValue (table : ClassTable) (index : Nat) : BitReader Nat := fun bits =>
  match table[index]? with
  | none => .error .corrupt
  | some (base, width) =>
    match Bits.field width bits with
    | .ok (n, rest) => .ok (base + n, rest)
    | .error e => .error e

end ClassTable
end Metering
