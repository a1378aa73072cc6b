import DhtStore.Bytes

namespace DhtStore.Crc32c

/-- Castagnoli's polynomial, its bits in reverse order. -/
def polynomial : UInt32 := 0x82F63B78

/-- One division step: the lowest bit leaves the register. -/
def bitStep (register : UInt32) : UInt32 :=
  if register &&& 1 = 1 then (register >>> 1) ^^^ polynomial else register >>> 1

/-- Takes in one byte, in eight division steps. -/
def byteStep (register : UInt32) (b : UInt8) : UInt32 :=
  Nat.repeat bitStep 8 (register ^^^ b.toUInt32)

/-- The register is inverted at both ends. -/
def checksum (bs : Bytes) : UInt32 :=
  bs.foldl byteStep 0xFFFFFFFF ^^^ 0xFFFFFFFF

end DhtStore.Crc32c
