import ClassWeave.Code.Branch
import ClassWeave.Code.Instruction
import ClassWeave.Typing.Frame

/-!
# What instructions do to frames

Primitive types and widths must fit exactly; where a reference is expected, any reference will do.
-/

namespace ClassWeave

def NumericKind.type : NumericKind → VType
  | int => .integer
  | long => .long
  | float => .float
  | double => .double

def IntegralKind.type : IntegralKind → VType
  | int => .integer
  | long => .long

def FloatingKind.type : FloatingKind → VType
  | float => .float
  | double => .double

/-- The type of a small constant. -/
def SmallConstant.type : SmallConstant → VType
  | null => .null
  | minusOne | int0 | int1 | int2 | int3 | int4 | int5 => .integer
  | long0 | long1 => .long
  | float0 | float1 | float2 => .float
  | double0 | double1 => .double

/-- The type of an array's elements on the stack, unless they are references. -/
def ElementKind.primitive? : ElementKind → Option VType
  | int | byte | char | short => some .integer
  | long => some .long
  | float => some .float
  | double => some .double
  | reference => none

/-- The type of a local variable, unless it holds a reference. -/
def SlotKind.primitive? : SlotKind → Option VType
  | int => some .integer
  | long => some .long
  | float => some .float
  | double => some .double
  | reference => none

/-- The types before and after a conversion. -/
def Conversion.types : Conversion → VType × VType
  | intToLong => (.integer, .long)
  | intToFloat => (.integer, .float)
  | intToDouble => (.integer, .double)
  | longToInt => (.long, .integer)
  | longToFloat => (.long, .float)
  | longToDouble => (.long, .double)
  | floatToInt => (.float, .integer)
  | floatToLong => (.float, .long)
  | floatToDouble => (.float, .double)
  | doubleToInt => (.double, .integer)
  | doubleToLong => (.double, .long)
  | doubleToFloat => (.double, .float)
  | intToByte | intToChar | intToShort => (.integer, .integer)

def Loadable.type : Loadable → VType
  | string _ => VType.ofClass .string
  | int _ => .integer
  | float _ => .float
  | long _ => .long
  | double _ => .double
  | classRef _ => VType.ofClass .classObject
  | methodType _ => VType.ofClass .methodType
  | methodHandle _ => VType.ofClass .methodHandle
  | dynamic _ type => VType.ofFieldType type

namespace FrameM

/-- Copying and dropping values. A value of two slots is moved as a whole. -/
def stackOp : StackOp → FrameM Unit
  | .pop => do let _ ← popSingle
  | .pop2 => do
    let first ← pop
    if first.width == 1 then let _ ← popSingle
  | .dup => do
    let first ← popSingle
    pushAll [first, first]
  | .dupX1 => do
    let first ← popSingle
    let second ← popSingle
    pushAll [first, second, first]
  | .dupX2 => do
    let first ← popSingle
    let second ← pop
    if second.width == 1 then
      let third ← popSingle
      pushAll [first, third, second, first]
    else pushAll [first, second, first]
  | .dup2 => do
    let first ← pop
    if first.width == 1 then
      let second ← popSingle
      pushAll [second, first, second, first]
    else pushAll [first, first]
  | .dup2X1 => do
    let first ← pop
    let second ← popSingle
    if first.width == 1 then
      let third ← popSingle
      pushAll [second, first, third, second, first]
    else pushAll [first, second, first]
  | .dup2X2 => do
    let first ← pop
    if first.width == 1 then
      let second ← popSingle
      let third ← pop
      if third.width == 1 then
        let fourth ← popSingle
        pushAll [second, first, fourth, third, second, first]
      else pushAll [second, first, third, second, first]
    else
      let second ← pop
      if second.width == 1 then
        let third ← popSingle
        pushAll [first, third, second, first]
      else pushAll [first, second, first]
  | .swap => do
    let first ← popSingle
    let second ← popSingle
    pushAll [first, second]

/-- The value found in an array of references. -/
def pushElement : VType → FrameM Unit
  | .object type =>
    match type.elementType? with
    | some (.ref element) => push (.object element)
    | _ => fail .notArray
  | .null => push .null
  | _ => fail .notArray

def plain : Plain → FrameM Unit
  | .nop => return
  | .push constant => push constant.type
  | .arrayLoad kind => do
    popExpecting .integer
    let array ← popArray
    match kind.primitive? with
    | some type => push type
    | none => pushElement array
  | .arrayStore kind => do
    match kind.primitive? with
    | some type => popExpecting type
    | none => let _ ← popReference
    popExpecting .integer
    let _ ← popArray
  | .stack op => stackOp op
  | .arithmetic _ kind => do
    popExpecting kind.type
    popExpecting kind.type
    push kind.type
  | .negate kind => convert kind.type kind.type
  | .shift _ kind => do
    popExpecting .integer
    convert kind.type kind.type
  | .bitwise _ kind => do
    popExpecting kind.type
    popExpecting kind.type
    push kind.type
  | .convert conversion => convert conversion.types.1 conversion.types.2
  | .compareLongs => do
    popExpecting .long
    convert .long .integer
  | .compareFloats kind _ => do
    popExpecting kind.type
    convert kind.type .integer
  | .arrayLength => do
    let _ ← popArray
    push .integer
  | .monitorEnter | .monitorExit => do let _ ← popReference

/-- Pushes a constant that must take `width` slots. -/
def pushLoadable (width : Nat) (constant : Loadable) : FrameM Unit :=
  let type := constant.type
  if type.width == width then push type else fail (.invalidWidth type.width)

/-- Pops arguments, the last one first. -/
def popArguments (parameters : List FieldType) : FrameM Unit :=
  parameters.reverse.forM popForField

def pushResult : Option FieldType → FrameM Unit
  | some type => push (VType.ofFieldType type)
  | none => return

/-- A constructor call initializes all copies of the object it is called on. -/
def construct (thisClass : BinaryName) (method : MethodRef) : FrameM Unit := do
  match ← pop with
  | .uninitializedThis => replaceAll .uninitializedThis (VType.ofClass thisClass)
  | .uninitialized source => replaceAll (.uninitialized source) (.object method.owner)
  | _ => fail .invalidType
  if method.descriptor.result.isSome then fail .invalidType

def invoke (thisClass : BinaryName) (kind : InvokeKind) (method : MethodRef) : FrameM Unit := do
  popArguments method.descriptor.parameters
  if kind = .special ∧ method.isConstructor then construct thisClass method
  else
    if kind ≠ .static then let _ ← popReference
    pushResult method.descriptor.result

def field (op : FieldOp) (ref : FieldRef) : FrameM Unit := do
  match op with
  | .getStatic => push (VType.ofFieldType ref.type)
  | .putStatic => popForField ref.type
  | .getField =>
    let _ ← popReference
    push (VType.ofFieldType ref.type)
  | .putField =>
    popForField ref.type
    let _ ← popReference

/-- `item` is the position of the instruction, by which a new object is known. -/
def onClass (item : Nat) (op : ClassOp) (type : RefType) : FrameM Unit := do
  match op with
  | .new => if type.isArray then fail .invalidType else push (.uninitialized item)
  | .newArray => convert .integer (.object (.arrayOf (.ref type)))
  | .checkCast =>
    let _ ← popReference
    push (.object type)
  | .instanceOf =>
    let _ ← popReference
    push .integer

def load (kind : SlotKind) (slot : UInt16) : FrameM Unit := do
  match kind.primitive? with
  | some type =>
    expectLocal slot type
    push type
  | none =>
    let type ← getLocal slot
    if type.isReference then push type else fail .invalidType

def store (kind : SlotKind) (slot : UInt16) : FrameM Unit := do
  match kind.primitive? with
  | some type =>
    popExpecting type
    setLocal slot type
  | none => setLocal slot (← popReference)

/-- The effect of a straight-line instruction at position `item`. -/
def instruction (thisClass : BinaryName) (item : Nat) : SymInstruction → FrameM Unit
  | .plain op => plain op
  | .pushByte _ | .pushShort _ => push .integer
  | .loadConstant constant => pushLoadable 1 constant
  | .loadWideConstant constant => pushLoadable 2 constant
  | .load kind slot => load kind slot
  | .store kind slot => store kind slot
  | .increment slot _ => expectLocal slot .integer
  | .field op ref => field op ref
  | .invoke kind method => invoke thisClass kind method
  | .invokeDynamic site => do
    popArguments site.descriptor.parameters
    pushResult site.descriptor.result
  | .newPrimitiveArray type => convert .integer (.object (.arrayOf (.base type)))
  | .onClass op type => onClass item op type
  | .newMultiArray type dimensions => do
    (List.replicate dimensions.toNat ()).forM fun _ => popExpecting .integer
    push (.object type)

def test : Test → FrameM Unit
  | .zero _ => popExpecting .integer
  | .ints _ => do
    popExpecting .integer
    popExpecting .integer
  | .references _ => do
    let _ ← popReference
    let _ ← popReference
  | .null _ => do let _ ← popReference

/-- Checks that a primitive of this type is what the method returns. -/
def returnPrimitive (type : VType) (result : Option FieldType) : FrameM Unit := do
  popExpecting type
  if result.map VType.ofFieldType = some type then return else fail .invalidType

def ret (result : Option FieldType) : ReturnKind → FrameM Unit
  | .int => returnPrimitive .integer result
  | .long => returnPrimitive .long result
  | .float => returnPrimitive .float result
  | .double => returnPrimitive .double result
  | .reference => do
    let _ ← popReference
    match result with
    | some (.ref _) => return
    | _ => fail .invalidType
  | .void => if result.isNone then return else fail .invalidType

/-- The effect of a branch in a method with the given result. -/
def branch {τ : Type} (result : Option FieldType) : Branch τ → FrameM Unit
  | .jumpIf condition _ => test condition
  | .goto _ => return
  | .tableSwitch _ _ _ | .lookupSwitch _ _ => popExpecting .integer
  | .ret kind => ret result kind
  | .athrow => do
    let exception ← popReference
    modify fun frame => { frame with stack := [exception] }

end FrameM

namespace VFrame

/-- The frame after a straight-line instruction at position `item`. -/
def execute (frame : VFrame) (thisClass : BinaryName) (item : Nat) (step : SymInstruction) :
    Except TypeFault VFrame :=
  return (← FrameM.instruction thisClass item step frame).2

/-- The frame after a branch, wherever it goes. -/
def executeBranch {τ : Type} (frame : VFrame) (result : Option FieldType) (jump : Branch τ) :
    Except TypeFault VFrame :=
  return (← FrameM.branch result jump frame).2

end VFrame

end ClassWeave
