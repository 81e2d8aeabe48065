import ClassWeave.Archive.Record

/-!
# Directories

Finds the directory of an archive, which the records at the archive's end lead to. Bytes may precede
the archive itself, so offsets are corrected by where the records really are.
-/

namespace ClassWeave

/-- Where the directory of an archive is. -/
structure DirectoryPlace where
  /-- The number of bytes before the archive. -/
  shift : Nat
  start : Nat
  count : Nat
  deriving DecidableEq, Repr

/-- The record at the end of an archive. -/
structure EndRecord where
  position : Nat
  disk : Nat
  directoryDisk : Nat
  /-- How many of the entries are on this disk. -/
  diskCount : Nat
  count : Nat
  directorySize : Nat
  directoryStart : Nat
  commentLength : Nat
  deriving DecidableEq, Repr

/-- The record that leads to the wide end record, which large archives have too. -/
structure WideLocator where
  disk : Nat
  offset : Nat
  deriving DecidableEq, Repr

namespace EndRecord

open Archive (unreadable word long wide hasSignature slice maxWord maxLong)

/-- The size of the end record without its comment. -/
def size : Nat := 22

/-- Looks back for the end record, `count` offsets from `offset` on. -/
def search (data : ByteArray) : (count offset : Nat) → Except Fault Nat
  | 0, _ => unreadable
  | count + 1, offset =>
    if hasSignature data offset 0x06054B50 then .ok offset else search data count (offset - 1)

/-- The end record is the last thing in an archive, but for its comment of at most 65535 bytes. -/
def find (data : ByteArray) : Except Fault Nat :=
  if data.size < size then unreadable
  else
    let last := data.size - size
    search data (min last maxWord + 1) last

def read (data : ByteArray) : Except Fault EndRecord := do
  let position ← find data
  let record : EndRecord := ⟨position, ← word data (position + 4), ← word data (position + 6),
    ← word data (position + 8), ← word data (position + 10), ← long data (position + 12),
    ← long data (position + 16), ← word data (position + 20)⟩
  let _ ← slice data (position + size) record.commentLength
  return record

/-- Is a number as large as it can be, so that the real one may be elsewhere? -/
def isFull (record : EndRecord) : Bool :=
  [record.disk, record.directoryDisk, record.diskCount, record.count].contains maxWord
    || [record.directorySize, record.directoryStart].contains maxLong

/-- The locator is in front of the last record, as far as the comment's length tells. -/
def locator? (record : EndRecord) (data : ByteArray) : Except Fault (Option WideLocator) :=
  let before := 20 + size + record.commentLength
  if before ≤ data.size ∧ hasSignature data (data.size - before) 0x07064B50 then do
    let position := data.size - before
    return some ⟨← long data (position + 4), ← wide data (position + 8)⟩
  else .ok none

/-- The directory lies right in front of the end record. -/
def place (record : EndRecord) : Except Fault DirectoryPlace :=
  if record.position < record.directorySize + record.directoryStart then unreadable
  else
    let shift := record.position - record.directorySize - record.directoryStart
    .ok ⟨shift, record.directoryStart + shift, record.diskCount⟩

end EndRecord

namespace WideLocator

open Archive (unreadable long wide hasSignature offsetLimit)

/-- The size of the wide end record and of the locator. -/
def recordsSize : Nat := 60

/-- Looks on for the wide end record, `count` offsets from `offset` on. -/
def search (data : ByteArray) : (count offset : Nat) → Except Fault Nat
  | 0, _ => unreadable
  | count + 1, offset =>
    if hasSignature data offset 0x06064B50 then .ok offset else search data count (offset + 1)

/-- The directory of an archive whose end record is at `stop`. The wide end record is where the
locator says, or later if bytes precede the archive. -/
def place (locator : WideLocator) (data : ByteArray) (stop : Nat) :
    Except Fault DirectoryPlace := do
  if stop < recordsSize then unreadable
  let position ← search data (stop - recordsSize + 1 - locator.offset) locator.offset
  let disk ← long data (position + 16)
  let directoryDisk ← long data (position + 20)
  let count ← wide data (position + 32)
  let shift := position - locator.offset
  let start := (← wide data (position + 48)) + shift
  if disk ≠ directoryDisk ∨ offsetLimit ≤ start then unreadable
  else return ⟨shift, start, count⟩

end WideLocator

namespace DirectoryPlace

open Archive (unreadable)

/-- Finds the directory of an archive, which must be in one piece. -/
def find (data : ByteArray) : Except Fault DirectoryPlace := do
  let record ← EndRecord.read data
  if ¬ record.isFull ∧ record.disk ≠ record.directoryDisk then unreadable
  match ← record.locator? data with
  | none => record.place
  | some locator =>
    if ¬ record.isFull ∧ record.disk ≠ locator.disk then unreadable
    else locator.place data record.position

end DirectoryPlace

end ClassWeave
