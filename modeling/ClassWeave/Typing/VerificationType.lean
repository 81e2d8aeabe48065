import ClassWeave.Descriptor.Basic

/-!
# Verification types

What is known about a local or a stack value at one point of a method. The types are used twice:
with named classes and positions of `new` items while frames are inferred, and with constant indices
and bytecode offsets in stack maps.
-/

namespace ClassWeave

/-- `κ` names a class and `υ` the place where an object was created. -/
inductive VerificationType (κ υ : Type) where
  /-- Unusable: the second half of a two-slot value, or a local whose type differs between paths. -/
  | top
  | integer
  | float
  | double
  | long
  | null
  /-- The receiver of a constructor before another constructor has run on it. -/
  | uninitializedThis
  | object (type : κ)
  /-- An object that has been created, but on which no constructor has run. -/
  | uninitialized (source : υ)
  deriving DecidableEq, Repr

/-- The types used while frames are inferred. -/
abbrev VType := VerificationType RefType Nat

/-- The types used in stack maps. -/
abbrev StoredType := VerificationType UInt16 UInt16

namespace VerificationType

variable {κ υ : Type}

def width : VerificationType κ υ → Nat
  | double | long => 2
  | _ => 1

def isReference : VerificationType κ υ → Bool
  | null | uninitializedThis | object _ | uninitialized _ => true
  | _ => false

end VerificationType

namespace VType

def ofFieldType : FieldType → VType
  | .base .long => .long
  | .base .float => .float
  | .base .double => .double
  | .base _ => .integer
  | .ref type => .object type

def ofClass (name : BinaryName) : VType := .object (.object name)

end VType

end ClassWeave
