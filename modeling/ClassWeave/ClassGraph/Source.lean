import Std.Data.HashMap
import ClassWeave.ClassFile.Basic

/-!
# Sources of classes

A source finds the headers of classes by name. Sources are searched in order, and the first one that
knows a class decides.
-/

namespace ClassWeave

/-- A source knows finitely many classes. A fault is for a class that was found and cannot be read.
-/
structure ClassSource where
  /-- No more classes than this can be found. -/
  bound : Nat
  find : BinaryName → Except Fault (Option ClassHeader)

namespace ClassSource

def empty : ClassSource := ⟨0, fun _ => .ok none⟩

/-- Classes that are given up front. Of two with one name the later one counts. -/
def ofHeaders (headers : List ClassHeader) : ClassSource :=
  let table : Std.HashMap BinaryName ClassHeader :=
    headers.foldl (fun table header => table.insert header.name header) ∅
  ⟨headers.length, fun name => .ok table[name]?⟩

/-- Asks the second source about classes that the first one does not know. -/
def orElse (first second : ClassSource) : ClassSource :=
  ⟨first.bound + second.bound, fun name => do
    match ← first.find name with
    | some header => return some header
    | none => second.find name⟩

def ofList (sources : List ClassSource) : ClassSource := sources.foldr orElse empty

end ClassSource

end ClassWeave
