import ClassWeave.Code.Instruction

/-!
# Values across a reflective call

A reflective call takes its arguments as objects and answers with one. Primitives are wrapped on the
way in and unwrapped on the way out; references are passed as they are.
-/

namespace ClassWeave

namespace BaseType

/-- The class whose objects wrap a primitive. -/
def boxClass : BaseType → BinaryName
  | boolean => .booleanBox
  | byte => .byteBox
  | char => .charBox
  | short => .shortBox
  | int => .intBox
  | long => .longBox
  | float => .floatBox
  | double => .doubleBox

/-- The method of the wrapper that gives the primitive back. -/
def unboxMethod : BaseType → UnqualifiedName
  | boolean => .booleanValue
  | byte => .byteValue
  | char => .charValue
  | short => .shortValue
  | int => .intValue
  | long => .longValue
  | float => .floatValue
  | double => .doubleValue

end BaseType

/-- A method of a class that is not an interface. -/
def MethodRef.ofClass (owner : BinaryName) (name : UnqualifiedName) (parameters : List FieldType)
    (result : Option FieldType) : MethodRef :=
  ⟨.object owner, name, ⟨parameters, result⟩, false⟩

/-- How a value of one type crosses the call. -/
inductive ValueMarshal where
  | reference (type : RefType)
  | primitive (type : BaseType)
  deriving DecidableEq, Repr

namespace ValueMarshal

def of : FieldType → ValueMarshal
  | .ref type => reference type
  | .base type => primitive type

/-- Does the value take two stack slots? -/
def isWide : ValueMarshal → Bool
  | reference _ => false
  | primitive type => type.width == 2

/-- The call that wraps a primitive on top of the stack. -/
def boxing? : ValueMarshal → Option SymInstruction
  | reference _ => none
  | primitive type => some (.invoke .static
      (.ofClass type.boxClass .valueOf [.base type] (some (.object type.boxClass))))

/-- What turns the object on top of the stack into a value of the type. -/
def unboxing : ValueMarshal → List SymInstruction
  | reference type =>
    if type = .object .object then [] else [.onClass .checkCast type]
  | primitive type =>
    [.onClass .checkCast (.object type.boxClass),
      .invoke .virtual (.ofClass type.boxClass type.unboxMethod [] (some (.base type)))]

/-- What pushes the class object of the type. Primitives have theirs in a field of the wrapper. -/
def classObject : ValueMarshal → SymInstruction
  | reference type => .loadConstant (.classRef type)
  | primitive type =>
    .field .getStatic ⟨type.boxClass, .typeField, .object .classObject⟩

end ValueMarshal

end ClassWeave
