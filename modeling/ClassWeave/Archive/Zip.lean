import Std.Data.HashMap
import ClassWeave.Archive.Checksum
import ClassWeave.Archive.Directory
import ClassWeave.Archive.Entry
import ClassWeave.Archive.Inflate

/-!
# Archives

Zip archives, whose entries are found by name and checked when they are read.
-/

namespace ClassWeave

structure Archive where
  data : ByteArray
  entries : Std.HashMap String ArchiveEntry

/-- What it means for a file that compressed data cannot be read. -/
def InflateFault.ioKind : InflateFault → IoKind
  | endOfInput => .unexpectedEof
  | corrupt => .invalidInput

namespace Archive

/-- Reads entries into a table. Of two with one name the later one counts. -/
def readEntries (data : ByteArray) (shift : Nat) :
    (count offset : Nat) → Std.HashMap String ArchiveEntry →
      Except Fault (Std.HashMap String ArchiveEntry)
  | 0, _, table => .ok table
  | count + 1, offset, table => do
    let (entry, next) ← ArchiveEntry.read data offset
    let entry ← entry.shift shift
    readEntries data shift count next (table.insert entry.name entry)

def read (data : ByteArray) : Except Fault Archive := do
  let place ← DirectoryPlace.find data
  return ⟨data, ← readEntries data place.shift place.count place.start ∅⟩

/-- Where the stored bytes of an entry start: after a header of their own. -/
def contentStart (archive : Archive) (entry : ArchiveEntry) : Except Fault Nat := do
  let start := entry.headerStart
  if (← long archive.data start) ≠ 0x04034B50 then unreadable
  return start + 30 + (← word archive.data (start + 26)) + (← word archive.data (start + 28))

/-- The bytes of an entry. Nothing is sure to be right about them but the checksum. -/
def extract (archive : Archive) (entry : ArchiveEntry) : Except Fault ByteArray := do
  if entry.isEncrypted then unreadable
  let start ← archive.contentStart entry
  unless entry.method ∈ [0, 8] do unreadable
  if entry.isLocked then throw .lockedEntry
  if offsetLimit ≤ entry.contentSize then throw .oversizedEntry
  let stored := archive.data.extract start (start + entry.storedSize)
  let content ← if entry.method = 0 then pure stored
    else (inflate stored).mapError fun fault => .io fault.ioKind
  if Checksum.ofBytes content = entry.checksum then return content else unreadable

/-- The bytes of the entry with a name, if there is one. -/
def find (archive : Archive) (name : String) : Except Fault (Option ByteArray) :=
  match archive.entries[name]? with
  | some entry => some <$> archive.extract entry
  | none => .ok none

end Archive

end ClassWeave
