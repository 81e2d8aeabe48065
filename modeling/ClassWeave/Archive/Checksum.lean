/-!
# Checksums

The cyclic redundancy check of 32 bits that archives keep of their entries.
-/

namespace ClassWeave

namespace Checksum

/-- One step of the division by the polynomial, the lowest bit coming first. -/
def shift (remainder : UInt32) : UInt32 :=
  if remainder &&& 1 == 1 then (remainder >>> 1) ^^^ 0xEDB88320 else remainder >>> 1

/-- The remainder after one more byte. -/
def addByte (remainder : UInt32) (byte : UInt8) : UInt32 :=
  let mixed := remainder ^^^ byte.toUInt32
  shift (shift (shift (shift (shift (shift (shift (shift mixed)))))))

def ofBytes (bytes : ByteArray) : UInt32 := bytes.foldl addByte 0xFFFFFFFF ^^^ 0xFFFFFFFF

end Checksum

end ClassWeave
