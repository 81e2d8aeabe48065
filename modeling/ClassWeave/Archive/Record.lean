import ClassWeave.Fault

/-!
# Records

The numbers that the records of an archive are made of. Each has a fixed place in its record, and
its low byte comes first.
-/

namespace ClassWeave

namespace Archive

/-- An archive that cannot be made sense of. -/
def unreadable {α : Type} : Except Fault α := .error (.io .other)

/-- The number of so many bytes at an offset, if they are all there. -/
def number? (data : ByteArray) : (count offset : Nat) → Option Nat
  | 0, _ => some 0
  | count + 1, offset => do
    let low ← data[offset]?
    return low.toNat + 256 * (← number? data count (offset + 1))

/-- The number of so many bytes at an offset, which have to be there. -/
def number (data : ByteArray) (count offset : Nat) : Except Fault Nat :=
  match number? data count offset with
  | some found => .ok found
  | none => unreadable

/-- A number of two bytes. -/
def word (data : ByteArray) (offset : Nat) : Except Fault Nat := number data 2 offset

/-- A number of four bytes. -/
def long (data : ByteArray) (offset : Nat) : Except Fault Nat := number data 4 offset

/-- A number of eight bytes. -/
def wide (data : ByteArray) (offset : Nat) : Except Fault Nat := number data 8 offset

/-- The largest number of two bytes. It may stand for one that needs more. -/
def maxWord : Nat := 0xFFFF

/-- The largest number of four bytes. It may stand for one that needs more. -/
def maxLong : Nat := 0xFFFFFFFF

/-- The first offset that is beyond every file. -/
def offsetLimit : Nat := 1 <<< 63

/-- Does a record start here? -/
def hasSignature (data : ByteArray) (offset signature : Nat) : Bool :=
  number? data 4 offset == some signature

/-- The bytes of a record that has to fit. -/
def slice (data : ByteArray) (start length : Nat) : Except Fault ByteArray :=
  if start + length ≤ data.size then .ok (data.extract start (start + length)) else unreadable

end Archive

end ClassWeave
