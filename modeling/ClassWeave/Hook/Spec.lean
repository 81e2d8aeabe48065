import ClassWeave.Hook.SpecFault
import ClassWeave.Hook.Target
import ClassWeave.Typing.Hierarchy

/-!
# Hook specs

A spec names the interface method that the hooks of one class call, and the methods that get a hook.
What can be checked without the class is checked when a spec is made; whether references fit is
checked once the class hierarchy is known.
-/

namespace ClassWeave

structure HookSpec where
  interface : InterfaceMethod
  targets : List Target
  deriving DecidableEq, Repr

namespace SpecFault

def checkName {α : Type} (parsed : Except NameError α) : Except SpecFault α :=
  parsed.mapError badName

def checkDescriptor {α : Type} (parsed : Except Fault α) : Except SpecFault α :=
  parsed.mapError badDescriptor

end SpecFault

open SpecFault (checkName checkDescriptor)

def methodDescriptorOf (text : String) : Except SpecFault MethodDescriptor :=
  checkDescriptor (parseDescriptor MethodDescriptor.parse text)

def fieldTypeOf (text : String) : Except SpecFault FieldType :=
  checkDescriptor (parseDescriptor FieldType.parse text)

namespace InterfaceMethod

/-- The interface is named with dots. -/
def ofTexts (owner name descriptor : String) : Except SpecFault InterfaceMethod := do
  return ⟨← checkName (BinaryName.ofDotted owner), ← checkName (UnqualifiedName.ofString name),
    ← methodDescriptorOf descriptor⟩

/-- Does a parameter have no form in which a reflective call takes it? -/
def takesPrimitiveArray (interface : InterfaceMethod) : Bool :=
  interface.descriptor.parameters.any fun
    | .ref type => type.isPrimitiveArray
    | .base _ => false

end InterfaceMethod

def CallSite.ofTexts (owner name descriptor : String) : Except SpecFault CallSite := do
  return ⟨← checkName (BinaryName.ofString owner), ← checkName (UnqualifiedName.ofString name),
    ← methodDescriptorOf descriptor⟩

namespace Target

def ofTexts (name descriptor : String) (shape : TriggerShape) (argumentSlots : List UInt16) :
    Except SpecFault Target := do
  return ⟨← checkName (UnqualifiedName.ofString name), ← methodDescriptorOf descriptor, shape,
    argumentSlots⟩

def display (target : Target) : String := target.name.text ++ target.descriptor.render

def isReference (type : Option FieldType) : Bool := ReturnKind.of type = .reference

def isObjectArray : Option FieldType → Bool
  | some (.ref (.array _ (.object _))) => true
  | _ => false

/-- What keeps a target from calling the interface method, if anything. -/
def fault? (target : Target) (interface : InterfaceMethod) : Option TargetFault :=
  let answer := interface.descriptor.result
  let result := target.descriptor.result
  let require (fits : Bool) (fault : TargetFault) : Option TargetFault :=
    if fits then none else some fault
  if target.argumentSlots.length ≠ interface.descriptor.parameters.length then
    some (.argumentCount target.argumentSlots.length interface.descriptor.parameters.length)
  else
    match target.shape with
    | .entry _ | .callBranch _ =>
      require (ReturnKind.of answer = ReturnKind.of result) (.resultNotReturnable answer)
    | .entrySelect _ ifTrue ifFalse =>
      if answer ≠ some (.base .boolean) then some .answerNotBoolean
      else
        require (ifTrue.type = ifFalse.type && isReference (some ifTrue.type) && isReference result)
          .selectionNotReference
    | .callResult call =>
      require (isReference answer && isReference call.descriptor.result) .replacementNotReference
    | .aggregate _ _ _ => require (isObjectArray answer && isReference result) .chunksNotArray
    | .cache _ _ _ => require (isReference answer && isReference result) .cachedNotReference

/-- A value that a hook produces and what it is used as. -/
structure TypeCheck where
  produced : Option FieldType
  use : ReferenceUse
  expected : Option FieldType

/-- All values that a hook produces for other code to use. -/
def typeChecks (target : Target) (interface : InterfaceMethod) : List TypeCheck :=
  let answer := interface.descriptor.result
  let result := target.descriptor.result
  match target.shape with
  | .entry _ | .callBranch _ => [⟨answer, .targetResult, result⟩]
  | .entrySelect _ ifTrue _ => [⟨some ifTrue.type, .result, result⟩]
  | .callResult call => [⟨answer, .callResult, call.descriptor.result⟩]
  | .aggregate _ chunkOwner _ =>
    let chunk := match answer with
      | some (.ref type) => type.elementType?
      | _ => none
    [⟨chunk, .chunk, some (.object chunkOwner)⟩,
      ⟨some (.object .string), .result, result⟩]
  | .cache _ field referenceClass =>
    [⟨some (.object referenceClass), .cacheField, some field.type⟩,
      ⟨answer, .targetResult, result⟩]

/-- Only references can fail to fit: primitives have been checked by then. -/
def checkFit (target : Target) (hierarchy : Hierarchy) (check : TypeCheck) :
    Except HookFault Unit :=
  match check.produced, check.expected with
  | some (.ref produced), some (.ref expected) => do
    if ← (hierarchy.isAssignable produced expected).mapError HookFault.classFile then return
    else throw (.invalidSpec (.badTarget target.name target.descriptor
      (.misfit produced check.use expected)))
  | _, _ => .ok ()

/-- Checks that all references that the hook produces fit where they are used. -/
def checkTypes (target : Target) (interface : InterfaceMethod) (hierarchy : Hierarchy) :
    Except HookFault Unit :=
  (target.typeChecks interface).forM (target.checkFit hierarchy)

end Target

namespace HookSpec

/-- Checks targets one by one, `seen` being those before. -/
def checkTargets (interface : InterfaceMethod) (seen : List (UnqualifiedName × MethodDescriptor)) :
    List Target → Except SpecFault Unit
  | [] => .ok ()
  | target :: rest =>
    let key := (target.name, target.descriptor)
    if seen.contains key then .error (.repeatedTarget target.name target.descriptor)
    else
      match target.fault? interface with
      | some fault => .error (.badTarget target.name target.descriptor fault)
      | none => checkTargets interface (key :: seen) rest

/-- The spec with the given parts, if they go together. -/
def ofParts (interface : InterfaceMethod) (targets : List Target) : Except SpecFault HookSpec :=
  if interface.takesPrimitiveArray then .error (.primitiveArrayParameter interface.descriptor)
  else
    match targets with
    | [] => .error .noTargets
    | _ :: _ => do
      checkTargets interface [] targets
      return ⟨interface, targets⟩

/-- The target that a method of the class is, if it is one. -/
def target? (spec : HookSpec) (name : String) (descriptor : MethodDescriptor) : Option Target :=
  spec.targets.find? fun target => target.name.text = name && target.descriptor = descriptor

end HookSpec

end ClassWeave
