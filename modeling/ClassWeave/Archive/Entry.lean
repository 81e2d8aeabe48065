import ClassWeave.Archive.Record
import ClassWeave.Text.CodePage
import ClassWeave.Text.Utf8

/-!
# Entries

What the directory of an archive says about an entry. Extra fields may follow the fixed ones: they
hold the numbers that need eight bytes, and mark locked entries.
-/

namespace ClassWeave

/-- An entry of an archive. -/
structure ArchiveEntry where
  name : String
  isEncrypted : Bool
  /-- Is the entry marked as locked by an extra field? -/
  isLocked : Bool
  method : Nat
  checksum : UInt32
  storedSize : Nat
  contentSize : Nat
  headerStart : Nat
  deriving DecidableEq, Repr

namespace ArchiveEntry

open Archive (number? unreadable maxLong)

/-- A number and where to go on reading. One that did not fit is found in eight bytes at `position`;
`none` if they are not all there. -/
def widen? (extra : ByteArray) (number position : Nat) : Option (Nat × Nat) :=
  if number = maxLong then (number? extra 8 position).map fun wide => (wide, position + 8)
  else some (number, position)

/-- Takes the numbers that did not fit from the bytes at `position`, and answers with where they
stop. If the bytes end too early, the numbers before that are taken all the same. -/
def widen (entry : ArchiveEntry) (extra : ByteArray) (position : Nat) : ArchiveEntry × Option Nat :=
  match widen? extra entry.contentSize position with
  | none => (entry, none)
  | some (contentSize, position) =>
    let entry := { entry with contentSize }
    match widen? extra entry.storedSize position with
    | none => (entry, none)
    | some (storedSize, position) =>
      let entry := { entry with storedSize }
      match widen? extra entry.headerStart position with
      | none => (entry, none)
      | some (headerStart, position) => ({ entry with headerStart }, some position)

/-- The method of entries whose own method is in the mark of a lock. -/
def lockedMethod : Nat := 99

/-- The size of the mark of a lock. -/
def lockSize : Nat := 7

/-- The entry as the mark of a lock at `position` has it; `none` if the bytes end too early. -/
def lock? (entry : ArchiveEntry) (extra : ByteArray) (length position : Nat) :
    Except Fault (Option ArchiveEntry) :=
  if length ≠ lockSize then unreadable
  else
    match number? extra 2 position, number? extra 2 (position + 2), number? extra 1 (position + 4),
      number? extra 2 (position + 5) with
    | some version, some vendor, some strength, some method =>
      if vendor = 0x4541 ∧ version ∈ [1, 2] ∧ strength ∈ [1, 2, 3] then
        .ok (some { entry with isLocked := true, method })
      else unreadable
    | _, _, _, _ => .ok none

/-- The entry as the extra fields from `position` on have it. Bytes that end too early end the
fields. The mark of a lock is followed by as many bytes again, which do not matter. -/
def addExtra (entry : ArchiveEntry) (extra : ByteArray) (position : Nat) :
    Except Fault ArchiveEntry :=
  if position < extra.size then
    match number? extra 2 position, number? extra 2 (position + 2) with
    | some kind, some length =>
      let start := position + 4
      if kind = 0x0001 then
        match entry.widen extra start with
        | (entry, some stop) => entry.addExtra extra (max stop (start + length))
        | (entry, none) => .ok entry
      else if kind = 0x9901 then
        match entry.lock? extra length start with
        | .ok (some entry) => entry.addExtra extra (start + 2 * lockSize)
        | .ok none => .ok entry
        | .error fault => .error fault
      else entry.addExtra extra (start + length)
    | _, _ => .ok entry
  else .ok entry
termination_by extra.size - position

/-- The entry when so many bytes lie before the archive. -/
def shift (entry : ArchiveEntry) (count : Nat) : Except Fault ArchiveEntry :=
  if entry.headerStart + count < 1 <<< 64 then
    .ok { entry with headerStart := entry.headerStart + count }
  else unreadable

/-- A name is in UTF-8 if the entry says so. -/
def decodeName (isUtf8 : Bool) (raw : ByteArray) : String :=
  if isUtf8 then Utf8.decode raw.toList else CodePage.decode raw.toList

/-- The entry at an offset of the directory, and the offset of the next one. -/
def read (data : ByteArray) (offset : Nat) : Except Fault (ArchiveEntry × Nat) := do
  if (← Archive.long data offset) ≠ 0x02014B50 then unreadable
  let flags ← Archive.word data (offset + 8)
  let method ← Archive.word data (offset + 10)
  let checksum ← Archive.long data (offset + 16)
  let storedSize ← Archive.long data (offset + 20)
  let contentSize ← Archive.long data (offset + 24)
  let nameLength ← Archive.word data (offset + 28)
  let extraLength ← Archive.word data (offset + 30)
  let commentLength ← Archive.word data (offset + 32)
  let headerStart ← Archive.long data (offset + 42)
  let tail ← Archive.slice data (offset + 46) (nameLength + extraLength + commentLength)
  let name := decodeName (flags.testBit 11) (tail.extract 0 nameLength)
  let entry : ArchiveEntry := ⟨name, flags.testBit 0, false, method, UInt32.ofNat checksum,
    storedSize, contentSize, headerStart⟩
  let entry ← entry.addExtra (tail.extract nameLength (nameLength + extraLength)) 0
  if entry.method = lockedMethod ∧ ¬ entry.isLocked then unreadable
  else return (entry, offset + 46 + tail.size)

end ArchiveEntry

end ClassWeave
