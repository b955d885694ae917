import Mathlib.Data.List.Basic

/-!
# CRC-32

The checksum of `zlib.crc32`: the reflected polynomial `0xEDB88320`, one bit at
a time, with all bits set before and inverted after.
-/

namespace KVSSD.Zlib

/-- Shift one bit out of the remainder. -/
def crcBit (remainder : UInt32) : UInt32 :=
  if remainder &&& 1 = 1 then (remainder >>> 1) ^^^ 0xEDB88320
  else remainder >>> 1

def crcByte (remainder : UInt32) (byte : UInt8) : UInt32 :=
  (List.range 8).foldl (fun state _ => crcBit state)
    (remainder ^^^ byte.toUInt32)

def crc32 (bytes : List UInt8) : UInt32 :=
  bytes.foldl crcByte 0xFFFFFFFF ^^^ 0xFFFFFFFF

/-- The check value of the algorithm, for the digits `1` to `9`. -/
example : crc32 [49, 50, 51, 52, 53, 54, 55, 56, 57] = 0xCBF43926 := by
  decide +kernel

end KVSSD.Zlib
