/-!
# Writing bytes

Numbers are written with their high bytes first, and lists after a 16-bit count of their elements.
-/

namespace ClassWeave

abbrev Bytes := List UInt8

namespace Bytes

def ofUInt16 (value : UInt16) : Bytes := [(value >>> 8).toUInt8, value.toUInt8]

def ofUInt32 (value : UInt32) : Bytes :=
  [(value >>> 24).toUInt8, (value >>> 16).toUInt8, (value >>> 8).toUInt8, value.toUInt8]

def ofUInt64 (value : UInt64) : Bytes :=
  ofUInt32 (value >>> 32).toUInt32 ++ ofUInt32 value.toUInt32

/-- A list after its count. The count keeps its low 16 bits only. -/
def ofList {α : Type} (write : α → Bytes) (values : List α) : Bytes :=
  ofUInt16 (UInt16.ofNat values.length) ++ values.flatMap write

end Bytes

end ClassWeave
