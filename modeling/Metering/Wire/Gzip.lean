import Metering.Deflate.Deflate
import Metering.Digest.Crc32

/-!
The gzip form of a byte string.

A member has a head of ten bytes, fields that the flags in the head announce, compressed data, and
a tail with a check value and the length. Reading takes the first member and passes over what
follows it. Writing uses the plain head, marked as the fastest level.
-/
namespace Metering

/-- Why a byte string is not taken for gzip. -/
inductive GzipFault
  | cutShort
  | badHead
  | longField
  | incomplete
  | corrupt
  | otherCheck
deriving DecidableEq, Repr

namespace GzipFault

def message : GzipFault → String
  | cutShort => "unexpected end of file"
  | badHead => "invalid gzip header"
  | longField => "gzip header field too long"
  | incomplete => "incomplete deflate stream"
  | corrupt => "corrupt deflate stream"
  | otherCheck => "corrupt gzip stream does not have a matching checksum"

def ofDeflate : DeflateFault → GzipFault
  | .incomplete => incomplete
  | .corrupt => corrupt

end GzipFault

namespace Gzip

/-- The head that is written. -/
def head : Bytes := [0x1f, 0x8b, 8, 0, 0, 0, 0, 0, 4, 0xff]

/-- The most bytes of a text in the head. -/
def maxField : Nat := 65535

/-- Passes over `count` bytes. -/
def pass (count : Nat) (data : Bytes) : Except GzipFault Bytes :=
  if data.length < count then .error .cutShort else .ok (data.drop count)

/-- Passes over a text and the zero that ends it. -/
def passText (data : Bytes) : Except GzipFault Bytes :=
  let text := data.takeWhile (· != 0)
  if maxField < text.length then .error .longField else pass (text.length + 1) data

/-- Passes over a block behind its length in two bytes. -/
def passBlock (data : Bytes) : Except GzipFault Bytes := do
  let rest ← pass 2 data
  pass (Bytes.toNatLittle (data.take 2)) rest

/-- Passes over the head and the fields that it announces. -/
def passHead (data : Bytes) : Except GzipFault Bytes := do
  let rest ← pass 10 data
  if data.take 3 ≠ [0x1f, 0x8b, 8] then throw .badHead
  let flags := data.getD 3 0
  let has (bit : Nat) : Bool := flags.toNat.testBit bit
  if has 5 || has 6 || has 7 then throw .badHead
  let rest ← if has 2 then passBlock rest else pure rest
  let rest ← if has 3 then passText rest else pure rest
  let rest ← if has 4 then passText rest else pure rest
  if has 1 then
    let seen := data.take (data.length - rest.length)
    let after ← pass 2 rest
    if Bytes.toNatLittle (rest.take 2) ≠ (Crc32.check seen).toNat % 0x10000 then throw .otherCheck
    return after
  else return rest

/-- The tail of a byte string: its check value and its length. -/
def tail (data : Bytes) : Bytes :=
  Bytes.ofNatLittle 4 (Crc32.check data).toNat ++ Bytes.ofNatLittle 4 data.length

/-- The gzip form of a byte string. -/
def compress (data : Bytes) : Bytes := head ++ Deflate.write data ++ tail data

/-- The byte string that the first member stands for. -/
def decompress (data : Bytes) : Except GzipFault Bytes := do
  let rest ← passHead data
  match Inflate.read rest with
  | .error e => throw (.ofDeflate e)
  | .ok (plain, rest) =>
    let _ ← pass 8 rest
    if rest.take 8 ≠ tail plain then throw .otherCheck
    return plain

/-- A way of compressing that reading undoes. The reader takes what any such writer makes, whichever
codes it uses and whatever it does about repetitions. -/
structure Writer where
  write : Bytes → Bytes
  decompress_write : ∀ data, decompress (write data) = .ok data

end Gzip
end Metering
