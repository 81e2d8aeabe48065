import ClassWeave.Code.Body
import ClassWeave.Hook.Fields
import ClassWeave.Hook.Marshal

/-!
# Calling the interface

The items by which a hook tests whether an object implements the interface, and calls the interface
method on it. Everything goes through the two fields of the hook, so that the class does not depend
on the interface.
-/

namespace ClassWeave

/-- Puts a number on the stack by the shortest instruction. -/
def loadInt (value : Nat) : SymInstruction :=
  match value with
  | 0 => .plain (.push .int0)
  | 1 => .plain (.push .int1)
  | 2 => .plain (.push .int2)
  | 3 => .plain (.push .int3)
  | 4 => .plain (.push .int4)
  | 5 => .plain (.push .int5)
  | value =>
    if value ≤ 127 then .pushByte (Int8.ofNat value)
    else if value ≤ 255 then .pushShort (Int16.ofNat value)
    else .loadConstant (.int (Int32.ofNat value))

/-- How a hook calls the interface method. -/
structure HookCall where
  fields : HookFields
  parameters : List ValueMarshal
  /-- No result is `void`. -/
  result : Option ValueMarshal

namespace HookCall

def of (fields : HookFields) (interface : InterfaceMethod) : HookCall :=
  ⟨fields, interface.descriptor.parameters.map ValueMarshal.of,
    interface.descriptor.result.map ValueMarshal.of⟩

def isInstanceMethod : MethodRef :=
  .ofClass .classObject .isInstance [.object .object] (some (.base .boolean))

def invokeMethod : MethodRef :=
  .ofClass .reflectMethod .invoke [.object .object, .arrayOf (.object .object)]
    (some (.object .object))

/-- Takes an object off the stack, and jumps to `skip` unless it implements the interface. -/
def guard (call : HookCall) (skip : Label) : List Item :=
  [.instruction (.field .getStatic call.fields.classField),
    .instruction (.plain (.stack .swap)),
    .instruction (.invoke .virtual isInstanceMethod),
    .branch (.jumpIf (.zero .eq) skip)]

/-- Moves the value below the array on top of the stack into the array. -/
def packArgument (index : Nat) (argument : ValueMarshal) : List SymInstruction :=
  let dup : SymInstruction := .plain (.stack (if argument.isWide then .dupX2 else .dupX1))
  [dup, dup, .plain (.stack .pop)] ++ argument.boxing?.toList
    ++ [loadInt index, .plain (.stack .swap), .plain (.arrayStore .reference)]

/-- Packs the arguments into an array, the last one first. -/
def packArguments (parameters : List ValueMarshal) : List SymInstruction :=
  [loadInt parameters.length, .onClass .newArray (.object .object)]
    ++ parameters.zipIdx.reverse.flatMap fun (argument, index) => packArgument index argument

/-- Turns the answer of the reflective call into what the interface method returns. -/
def unwrapResult (call : HookCall) : List SymInstruction :=
  match call.result with
  | none => [.plain (.stack .pop)]
  | some result => result.unboxing

/-- Calls the interface method on the object below its arguments. -/
def instructions (call : HookCall) : List SymInstruction :=
  packArguments call.parameters
    ++ [.field .getStatic call.fields.methodField, .plain (.stack .dupX2), .plain (.stack .pop),
      .invoke .virtual invokeMethod]
    ++ call.unwrapResult

def items (call : HookCall) : List Item := call.instructions.map Item.instruction

/-- Marks where the guard jumps to. -/
def landing (skip : Label) : List Item := [.label skip]

end HookCall

end ClassWeave
