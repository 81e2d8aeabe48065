import ClassWeave.Descriptor.Basic
import ClassWeave.Fault
import ClassWeave.Name.WellKnown
import ClassWeave.Typing.VerificationType

/-!
# Frames

A frame is what is known before one instruction: a type for every local slot and for every value on
the stack. The operations on frames here are those that the instructions are made of.
-/

namespace ClassWeave

/-- Locals are listed by slot, so a two-slot local is followed by an unusable one. Values on the
stack are listed once each, the topmost first. -/
structure Frame (κ υ : Type) where
  locals : List (VerificationType κ υ)
  stack : List (VerificationType κ υ)
  deriving DecidableEq, Repr

/-- Frames while they are inferred. -/
abbrev VFrame := Frame RefType Nat

/-- The method whose body is typed. -/
structure MethodContext where
  thisClass : BinaryName
  name : UnqualifiedName
  descriptor : MethodDescriptor
  isStatic : Bool

namespace VFrame

/-- The number of stack slots in use. -/
def depth (frame : VFrame) : Nat := frame.stack.foldr (fun type slots => type.width + slots) 0

/-- The local slots of a parameter. -/
def parameterLocals (type : FieldType) : List VType :=
  let value := VType.ofFieldType type
  if value.width == 2 then [value, .top] else [value]

/-- The receiver on entry to a method. A constructor's is not initialized, except in the root of the
class hierarchy, which has no superclass constructor to call. -/
def receiverLocals (method : MethodContext) : List VType :=
  if method.isStatic then []
  else if method.name = .init ∧ method.thisClass ≠ .object then [.uninitializedThis]
  else [VType.ofClass method.thisClass]

/-- The frame on entry to a method. -/
def initial (method : MethodContext) : VFrame :=
  ⟨receiverLocals method ++ method.descriptor.parameters.flatMap parameterLocals, []⟩

end VFrame

/-- Changes to a frame, any of which may find that the frame does not fit. -/
abbrev FrameM (α : Type) := StateT VFrame (Except TypeFault) α

namespace FrameM

def fail {α : Type} (fault : TypeFault) : FrameM α := fun _ => .error fault

def push (type : VType) : FrameM Unit := modify fun frame =>
  { frame with stack := type :: frame.stack }

/-- Pushes values, the last one ending on top. -/
def pushAll (types : List VType) : FrameM Unit := modify fun frame =>
  { frame with stack := types.reverse ++ frame.stack }

def pop : FrameM VType := fun frame =>
  match frame.stack with
  | [] => .error .emptyStack
  | type :: rest => .ok (type, { frame with stack := rest })

/-- Pops a value that takes one slot. -/
def popSingle : FrameM VType := do
  let type ← pop
  if type.width == 1 then return type else fail (.invalidWidth type.width)

def popExpecting (expected : VType) : FrameM Unit := do
  if (← pop) = expected then return else fail .invalidType

/-- Pops a reference of any class, initialized or not. -/
def popReference : FrameM VType := do
  let type ← pop
  if type.isReference then return type else fail .invalidType

/-- Pops an array; null counts as one. -/
def popArray : FrameM VType := do
  match ← pop with
  | .object (.array extra element) => return .object (.array extra element)
  | .null => return .null
  | _ => fail .notArray

/-- Pops a value for a field or a parameter. Any reference will do for a reference type. -/
def popForField : FieldType → FrameM Unit
  | .ref _ => do let _ ← popReference
  | .base type => popExpecting (VType.ofFieldType (.base type))

/-- Replaces a value on top of the stack. -/
def convert (expected result : VType) : FrameM Unit := do
  popExpecting expected
  push result

def getLocal (slot : UInt16) : FrameM VType := fun frame =>
  match frame.locals[slot.toNat]? with
  | some type => .ok (type, frame)
  | none => .error .invalidIndex

def expectLocal (slot : UInt16) (expected : VType) : FrameM Unit := do
  if (← getLocal slot) = expected then return else fail .invalidType

end FrameM

/-- The locals after a store. A two-slot local that the store reaches into becomes unusable. -/
def storeLocal (locals : List VType) (slot : Nat) (type : VType) : List VType :=
  let missing := slot + type.width - locals.length
  let locals := locals ++ List.replicate missing .top
  let locals :=
    if 0 < slot ∧ (locals.getD (slot - 1) .top).width = 2 then locals.set (slot - 1) .top
    else locals
  let locals :=
    if (locals.getD slot .top).width = 2 ∧ type.width = 1 then locals.set (slot + 1) .top
    else locals
  let locals := locals.set slot type
  if type.width = 2 then locals.set (slot + 1) .top else locals

namespace FrameM

def setLocal (slot : UInt16) (type : VType) : FrameM Unit := modify fun frame =>
  { frame with locals := storeLocal frame.locals slot.toNat type }

/-- Replaces a type everywhere in the frame. -/
def replaceAll (old new : VType) : FrameM Unit := modify fun frame =>
  let replace (type : VType) : VType := if type = old then new else type
  { locals := frame.locals.map replace, stack := frame.stack.map replace }

end FrameM

end ClassWeave
