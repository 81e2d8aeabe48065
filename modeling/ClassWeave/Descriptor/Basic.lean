import ClassWeave.Name.Basic

/-!
# Types and signatures

The types of fields, locals and stack values, and the signatures of methods, as descriptors spell
them.
-/

namespace ClassWeave

inductive BaseType where
  | byte
  | char
  | double
  | float
  | int
  | long
  | short
  | boolean
  deriving DecidableEq, Repr, Hashable

def BaseType.name : BaseType → String
  | byte => "byte"
  | char => "char"
  | double => "double"
  | float => "float"
  | int => "int"
  | long => "long"
  | short => "short"
  | boolean => "boolean"

/-- The number of slots that a value takes. -/
def BaseType.width : BaseType → Nat
  | double | long => 2
  | _ => 1

/-- What an array holds once all its dimensions are taken off. -/
inductive Component where
  | base (type : BaseType)
  | object (name : BinaryName)
  deriving DecidableEq, Repr, Hashable

/-- A reference type. An array has `extraDimensions + 1` dimensions, so it has at least one. -/
inductive RefType where
  | object (name : BinaryName)
  | array (extraDimensions : Nat) (element : Component)
  deriving DecidableEq, Repr, Hashable

/-- The type of a field, a local or a stack value. -/
inductive FieldType where
  | base (type : BaseType)
  | ref (type : RefType)
  deriving DecidableEq, Repr, Hashable

namespace FieldType

def object (name : BinaryName) : FieldType := .ref (.object name)

def width : FieldType → Nat
  | base type => type.width
  | ref _ => 1

end FieldType

namespace RefType

/-- The array type whose elements have the given type. -/
def arrayOf : FieldType → RefType
  | .base type => array 0 (.base type)
  | .ref (.object name) => array 0 (.object name)
  | .ref (.array extra element) => array (extra + 1) element

/-- The type of an array's elements. -/
def elementType? : RefType → Option FieldType
  | object _ => none
  | array 0 (.base type) => some (.base type)
  | array 0 (.object name) => some (.object name)
  | array (extra + 1) element => some (.ref (array extra element))

def isArray : RefType → Bool
  | object _ => false
  | array _ _ => true

/-- Is this an array whose innermost elements are primitive? -/
def isPrimitiveArray : RefType → Bool
  | array _ (.base _) => true
  | _ => false

end RefType

def FieldType.arrayOf (element : FieldType) : FieldType := .ref (RefType.arrayOf element)

/-- The parameters and the result of a method; no result is `void`. -/
structure MethodDescriptor where
  parameters : List FieldType
  result : Option FieldType
  deriving DecidableEq, Repr, Hashable

namespace MethodDescriptor

/-- The local slots of the parameters, and one more for the receiver if there is one. -/
def parameterSlots (descriptor : MethodDescriptor) (hasReceiver : Bool) : Nat :=
  descriptor.parameters.foldr (fun type slots => type.width + slots) hasReceiver.toNat

end MethodDescriptor

/-- How a method hands back its result. -/
inductive ReturnKind where
  | void
  | int
  | long
  | float
  | double
  | reference
  deriving DecidableEq, Repr

def ReturnKind.name : ReturnKind → String
  | void => "void"
  | int => "int"
  | long => "long"
  | float => "float"
  | double => "double"
  | reference => "reference"

/-- All primitives shorter than an `int` are returned as one. -/
def ReturnKind.of : Option FieldType → ReturnKind
  | none => .void
  | some (.ref _) => .reference
  | some (.base .long) => .long
  | some (.base .float) => .float
  | some (.base .double) => .double
  | some (.base _) => .int

end ClassWeave
