import ClassWeave.ClassFile.StackMap
import ClassWeave.Constant.Pool
import ClassWeave.Typing.Frame

/-!
# Frames for stack maps

Turns inferred frames into the form that stack maps hold: classes become constants, and new objects
are known by the bytecode offset where they are created.
-/

namespace ClassWeave

/-- `offsetOf` leads from the position of an item to its offset. -/
def PoolM.storedType (offsetOf : Nat → UInt16) : VType → PoolM StoredType
  | .top => return .top
  | .integer => return .integer
  | .float => return .float
  | .double => return .double
  | .long => return .long
  | .null => return .null
  | .uninitializedThis => return .uninitializedThis
  | .object type => do return .object (← PoolM.classType type)
  | .uninitialized item => return .uninitialized (offsetOf item)

namespace VFrame

/-- Leaves the second half of two-slot locals out, after the reversed locals in `seen`. -/
def condenseOnto (seen : List VType) : List VType → List VType
  | [] => seen
  | [type] => type :: seen
  | type :: next :: rest =>
    if type.width = 2 then condenseOnto (type :: seen) rest
    else condenseOnto (type :: seen) (next :: rest)

/-- One entry for each local, up to the last usable one. -/
def condensed (locals : List VType) : List VType :=
  ((condenseOnto [] locals).dropWhile (· = .top)).reverse

/-- The stored form of a frame. Stored stacks are listed from the bottom up. -/
def stored (frame : VFrame) (offsetOf : Nat → UInt16) : PoolM StoredFrame := do
  let locals ← (condensed frame.locals).mapM (PoolM.storedType offsetOf)
  let stack ← frame.stack.reverse.mapM (PoolM.storedType offsetOf)
  return ⟨locals, stack⟩

end VFrame

end ClassWeave
