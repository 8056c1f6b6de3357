import Courier.Bytes
/-!
# The CRC-32 checksum

The 32-bit cyclic redundancy check of the reflected polynomial `0xEDB88320`, a byte at a time by a
table.
-/

namespace Courier.Crc32

def step (r : UInt32) : UInt32 :=
  if r &&& 1 = 1 then (r >>> 1) ^^^ 0xEDB88320 else r >>> 1

def remainder (b : Nat) : UInt32 :=
  step (step (step (step (step (step (step (step (UInt32.ofNat b))))))))

def table : Array UInt32 :=
  ((List.range 256).map remainder).toArray

def update (register : UInt32) (b : UInt8) : UInt32 :=
  (table[((register ^^^ b.toUInt32) &&& 0xFF).toNat]?.getD 0) ^^^ (register >>> 8)

def checksum (bytes : Bytes) : UInt32 :=
  bytes.foldl update 0xFFFFFFFF ^^^ 0xFFFFFFFF

end Courier.Crc32
