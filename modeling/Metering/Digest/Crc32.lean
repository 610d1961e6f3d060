import Metering.Bytes.Basic

/-!
The cyclic redundancy check of 32 bits, least significant bit first.
-/
namespace Metering.Crc32

/-- Moves the register by one bit. -/
def shift (register : UInt32) : UInt32 :=
  if register &&& 1 = 1 then (register >>> 1) ^^^ 0xedb88320 else register >>> 1

/-- Takes one byte into the register. -/
def absorb (register : UInt32) (b : UInt8) : UInt32 :=
  shift (shift (shift (shift (shift (shift (shift (shift (register ^^^ b.toUInt32))))))))

/-- The check value of a byte string. -/
def check (data : Bytes) : UInt32 := ~~~ (data.foldl absorb 0xffffffff)

end Metering.Crc32
