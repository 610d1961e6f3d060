import Metering.Deflate.PrefixCode
import Metering.Deflate.Token

/-!
Reading compressed data.

The data is a sequence of blocks, the last of which is marked. A block is stored, or it holds
tokens under the fixed codes, or under codes that stand at its head. Input that ends too early is
told apart from input that no continuation can mend.
-/
namespace Metering.Inflate

/-- The codes of a block: one for bytes, the end and classes of lengths, one for classes of
distances. -/
structure BlockCode where
  symbols : PrefixCode
  distances : PrefixCode

/-- The symbol that ends a block. The classes of lengths follow it. -/
def endSymbol : Nat := 256

/-- The tokens of a block, up to its end. -/
def tokens (code : BlockCode) : Nat → Window → BitReader Window
  | 0, _, _ => .error .incomplete
  | fuel + 1, out, bits =>
    match code.symbols.decode bits with
    | .error e => .error e
    | .ok (s, bits) =>
      if s < endSymbol then tokens code fuel (out.push (UInt8.ofNat s)) bits
      else if s = endSymbol then .ok (out, bits)
      else match ClassTable.lengths.readValue (s - endSymbol - 1) bits with
        | .error e => .error e
        | .ok (length, bits) =>
          match code.distances.decode bits with
          | .error e => .error e
          | .ok (d, bits) =>
            match ClassTable.distances.readValue d bits with
            | .error e => .error e
            | .ok (distance, bits) => tokens code fuel (out.copy distance length) bits

/-! ## The codes of a block -/

/-- The fixed lengths of words: eight bits, and nine and seven for two ranges. -/
def fixedLengths : List Nat :=
  List.replicate 144 8 ++ List.replicate 112 9 ++ List.replicate 24 7 ++ List.replicate 8 8

/-- The fixed codes. -/
def fixedCode : BlockCode :=
  ⟨.ofLengths fixedLengths, .ofLengths (List.replicate 32 5)⟩

/-- The order in which the lengths of the code of lengths are given. -/
def lengthOrder : List Nat :=
  [16, 17, 18, 0, 8, 7, 9, 6, 10, 5, 11, 4, 12, 3, 13, 2, 14, 1, 15]

/-- `count` fields of three bits. -/
def shortFields : Nat → BitReader (List Nat)
  | 0, bits => .ok ([], bits)
  | count + 1, bits =>
    match Bits.field 3 bits with
    | .error e => .error e
    | .ok (n, bits) =>
      match shortFields count bits with
      | .error e => .error e
      | .ok (ns, bits) => .ok (n :: ns, bits)

/-- Reads how often a length is repeated, and appends that many. -/
def repeated (length least width : Nat) (seen : Array Nat) : BitReader (Array Nat) := fun bits =>
  match Bits.field width bits with
  | .error e => .error e
  | .ok (n, bits) => .ok (seen ++ Array.replicate (least + n) length, bits)

/-- One length of a word, or a run of them. -/
def lengthRun (s : Nat) (seen : Array Nat) : BitReader (Array Nat) := fun bits =>
  if s < 16 then .ok (seen.push s, bits)
  else if s = 16 then
    match seen.back? with
    | none => .error .corrupt
    | some last => repeated last 3 2 seen bits
  else if s = 17 then repeated 0 3 3 seen bits
  else repeated 0 11 7 seen bits

/-- Lengths of words until there are `total`; a run must not go beyond. -/
def wordLengths (code : PrefixCode) (total : Nat) : Nat → Array Nat → BitReader (List Nat)
  | 0, _, _ => .error .corrupt
  | fuel + 1, seen, bits =>
    if seen.size = total then .ok (seen.toList, bits)
    else if total < seen.size then .error .corrupt
    else match code.decode bits with
      | .error e => .error e
      | .ok (s, bits) =>
        match lengthRun s seen bits with
        | .error e => .error e
        | .ok (seen, bits) => wordLengths code total fuel seen bits

/-- A code that must be usable. -/
def usable (lengths : List Nat) : Except DeflateFault PrefixCode :=
  let code := PrefixCode.ofLengths lengths
  if code.isUsable then .ok code else .error .corrupt

/-- The code of lengths, which must be complete. -/
def lengthCode (fields : List Nat) : Except DeflateFault PrefixCode :=
  let given := lengthOrder.zip fields
  let code := PrefixCode.ofLengths ((List.range 19).map fun s => (given.lookup s).getD 0)
  if code.isComplete then .ok code else .error .corrupt

/-- The most symbols that a block may give words to. -/
def maxSymbols : Nat := 286

/-- The most classes of distances that a block may give words to. -/
def maxDistances : Nat := 30

/-- The codes at the head of a block. -/
def blockCode : BitReader BlockCode := fun bits => do
  let (n, bits) ← Bits.field 5 bits
  let (m, bits) ← Bits.field 5 bits
  let (k, bits) ← Bits.field 4 bits
  let symbols := n + 257
  let distances := m + 1
  let (fields, bits) ← shortFields (k + 4) bits
  if maxSymbols < symbols ∨ maxDistances < distances then throw .corrupt
  let code ← lengthCode fields
  let (lengths, bits) ← wordLengths code (symbols + distances) (symbols + distances + 1) #[] bits
  return (⟨← usable (lengths.take symbols), ← usable (lengths.drop symbols)⟩, bits)

/-! ## Blocks -/

/-- A stored block: its length, the complement of its length, and the bytes. -/
def stored (out : Window) : BitReader Window := fun bits => do
  let (head, bits) ← Bits.takeBytes 4 (Bits.alignToByte bits)
  let length := Bytes.toNatLittle (head.take 2)
  if length + Bytes.toNatLittle (head.drop 2) ≠ 65535 then throw .corrupt
  let (data, bits) ← Bits.takeBytes length bits
  return (out ++ data.toArray, bits)

/-- One block by its kind. -/
def block (kind : Nat) (out : Window) : BitReader Window := fun bits =>
  match kind with
  | 0 => stored out bits
  | 1 => tokens fixedCode (bits.length + 1) out bits
  | 2 =>
    match blockCode bits with
    | .error e => .error e
    | .ok (code, bits) => tokens code (bits.length + 1) out bits
  | _ => .error .corrupt

/-- All blocks up to the one that is marked as the last. -/
def blocks : Nat → Window → BitReader Window
  | 0, _, _ => .error .incomplete
  | fuel + 1, out, bits =>
    match Bits.field 1 bits with
    | .error e => .error e
    | .ok (last, bits) =>
      match Bits.field 2 bits with
      | .error e => .error e
      | .ok (kind, bits) =>
        match block kind out bits with
        | .error e => .error e
        | .ok (out, bits) => if last = 1 then .ok (out, bits) else blocks fuel out bits

/-- The bytes that the data at the head of the input stands for, and what follows the byte in
which it ends. -/
def read (data : Bytes) : Except DeflateFault (Bytes × Bytes) :=
  let bits := Bits.unpack data
  match blocks (bits.length + 1) #[] bits with
  | .error e => .error e
  | .ok (out, left) => .ok (out.toList, data.drop (data.length - left.length / 8))

end Metering.Inflate
