import ClassWeave.Constant.Pool
import ClassWeave.Name.WellKnown

/-!
# Operands

The operands of instructions come in five kinds, and each in two forms: as the slot of a constant,
and spelt out by name. Reading turns the first form into the second, lowering the second into the
first.
-/

namespace ClassWeave

inductive OperandKind where
  | classRef
  | loadable
  | field
  | method
  | callSite
  deriving DecidableEq, Repr

/-- A constant that can be put on the stack. Constants that only a class file can describe stay
slots. -/
inductive Loadable where
  | string (text : String)
  | int (value : Int32)
  | float (bits : UInt32)
  | long (value : Int64)
  | double (bits : UInt64)
  | classRef (type : RefType)
  | methodType (index : ConstantIndex)
  | methodHandle (index : ConstantIndex)
  | dynamic (index : ConstantIndex) (type : FieldType)
  deriving DecidableEq, Repr

structure FieldRef where
  owner : BinaryName
  name : UnqualifiedName
  type : FieldType
  deriving DecidableEq, Repr

/-- A method. Arrays own some too, such as `clone`. -/
structure MethodRef where
  owner : RefType
  name : UnqualifiedName
  descriptor : MethodDescriptor
  isInterface : Bool
  deriving DecidableEq, Repr

/-- A call site whose target is found when it is first reached. -/
structure CallSiteRef where
  index : ConstantIndex
  descriptor : MethodDescriptor
  deriving DecidableEq, Repr

/-- Operands spelt out by name. -/
@[reducible]
def Symbolic : OperandKind → Type
  | .classRef => RefType
  | .loadable => Loadable
  | .field => FieldRef
  | .method => MethodRef
  | .callSite => CallSiteRef

/-- Operands as slots of the constant pool. -/
@[reducible]
def Pooled (_ : OperandKind) : Type := ConstantIndex

/-- Does the constant take two stack slots? -/
def Loadable.isWide : Loadable → Bool
  | long _ | double _ => true
  | dynamic _ type => type.width == 2
  | _ => false

def MethodRef.isConstructor (method : MethodRef) : Bool := method.name == UnqualifiedName.init

namespace ConstantTable

variable (table : ConstantTable)

def loadable (index : ConstantIndex) : Except Fault Loadable := do
  match ← table.constant index with
  | .string text => return .string (← table.utf8 text)
  | .integer value => return .int value
  | .float bits => return .float bits
  | .long value => return .long value
  | .double bits => return .double bits
  | .classRef _ => return .classRef (← table.classType index)
  | .methodType _ => return .methodType index
  | .methodHandle _ _ => return .methodHandle index
  | .dynamic _ signature =>
    let (_, type) ← table.nameAndDescriptor FieldType.parse signature
    return .dynamic index type
  | _ => throw (.badConstant index .loadable)

def memberName (text : String) : Except Fault UnqualifiedName :=
  match UnqualifiedName.ofString text with
  | .ok name => .ok name
  | .error cause => .error (.invalidName cause)

def fieldRef (index : ConstantIndex) : Except Fault FieldRef := do
  match ← table.constant index with
  | .fieldRef owner signature =>
    let (name, type) ← table.nameAndDescriptor FieldType.parse signature
    let owner ← table.binaryName owner
    return ⟨owner, ← memberName name, type⟩
  | _ => throw (.badConstant index .fieldRef)

def methodRef (index : ConstantIndex) : Except Fault MethodRef := do
  match ← table.constant index with
  | .methodRef owner signature isInterface =>
    let (name, descriptor) ← table.nameAndDescriptor MethodDescriptor.parse signature
    let owner ← table.classType owner
    return ⟨owner, ← memberName name, descriptor, isInterface⟩
  | _ => throw (.badConstant index .methodRef)

def callSite (index : ConstantIndex) : Except Fault CallSiteRef := do
  match ← table.constant index with
  | .invokeDynamic _ signature =>
    let (_, descriptor) ← table.nameAndDescriptor MethodDescriptor.parse signature
    return ⟨index, descriptor⟩
  | _ => throw (.badConstant index .callSite)

/-- Spells out the operand in a slot. -/
def operand : (kind : OperandKind) → ConstantIndex → Except Fault (Symbolic kind)
  | .classRef, index => table.classType index
  | .loadable, index => table.loadable index
  | .field, index => table.fieldRef index
  | .method, index => table.methodRef index
  | .callSite, index => table.callSite index

end ConstantTable

namespace PoolM

def loadable : Loadable → PoolM ConstantIndex
  | .string text => do
    let text ← utf8 text
    intern (.string text)
  | .int value => intern (.integer value)
  | .float bits => intern (.float bits)
  | .long value => intern (.long value)
  | .double bits => intern (.double bits)
  | .classRef type => classType type
  | .methodType index | .methodHandle index | .dynamic index _ => return index

def fieldRef (field : FieldRef) : PoolM ConstantIndex := do
  let owner ← binaryName field.owner
  let signature ← nameAndType field.name field.type.render
  intern (.fieldRef owner signature)

def methodRef (method : MethodRef) : PoolM ConstantIndex := do
  let owner ← classType method.owner
  let signature ← nameAndType method.name method.descriptor.render
  intern (.methodRef owner signature method.isInterface)

/-- The slot of an operand. A call site keeps the slot it came from. -/
def operand : (kind : OperandKind) → Symbolic kind → PoolM ConstantIndex
  | .classRef, type => classType type
  | .loadable, constant => loadable constant
  | .field, field => fieldRef field
  | .method, method => methodRef method
  | .callSite, site => return site.index

end PoolM

end ClassWeave
