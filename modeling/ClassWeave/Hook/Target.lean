import ClassWeave.Code.Operand

/-!
# Targets of hooks

A hook goes into a method of the class that takes it, and calls one method of an interface. The
shape of the hook says what triggers it, and what becomes of the interface's answer.
-/

namespace ClassWeave

/-- The interface method that hooks call. The interface is found by name when the hooked class is
initialized. -/
structure InterfaceMethod where
  owner : BinaryName
  name : UnqualifiedName
  descriptor : MethodDescriptor
  deriving DecidableEq, Repr

/-- A call that a trigger waits for. -/
structure CallSite where
  owner : BinaryName
  name : UnqualifiedName
  descriptor : MethodDescriptor
  deriving DecidableEq, Repr

/-- Does an instruction call this method? How it is called does not matter. -/
def CallSite.isCallOf (call : CallSite) (method : MethodRef) : Bool :=
  method.owner = .object call.owner && method.name = call.name
    && method.descriptor = call.descriptor

inductive TriggerShape where
  /-- At the start of the method. The object tested is in a local, and the answer is returned. -/
  | entry (slot : UInt16)
  /-- At the start of the method. The answer picks the static field whose value is returned. -/
  | entrySelect (slot : UInt16) (ifTrue ifFalse : FieldRef)
  /-- After the call, the first local that is loaded or stored is tested, and the next jump leads to
  the place of the hook. The answer is returned. -/
  | callBranch (call : CallSite)
  /-- After the call's result has been stored in a local, the answer takes its place. -/
  | callResult (call : CallSite)
  /-- After the call's result has been stored, the answer is an array of chunks, whose texts are
  joined and returned. -/
  | aggregate (call : CallSite) (chunkOwner : BinaryName) (chunkMethod : UnqualifiedName)
  /-- After the call's result has been stored, the answer is wrapped in a reference object, kept in
  a field of the receiver, and returned. -/
  | cache (call : CallSite) (field : FieldRef) (referenceClass : BinaryName)
  deriving DecidableEq, Repr

namespace TriggerShape

/-- The call that the shape waits for, if any. -/
def call? : TriggerShape → Option CallSite
  | entry _ | entrySelect _ _ _ => none
  | callBranch call | callResult call | aggregate call _ _ | cache call _ _ => some call

/-- The type of the fields that cached answers are kept in, unless another is given. -/
def cacheFieldType : FieldType := .object .reference

end TriggerShape

/-- A method that gets a hook. -/
structure Target where
  name : UnqualifiedName
  descriptor : MethodDescriptor
  shape : TriggerShape
  /-- The locals that hold the interface method's arguments, in order. -/
  argumentSlots : List UInt16
  deriving DecidableEq, Repr

end ClassWeave
