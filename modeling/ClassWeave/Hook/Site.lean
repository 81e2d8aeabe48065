import ClassWeave.Hook.Call

/-!
# Hook sites

The items that a hook adds to a method. They test the object in a local: if it implements the
interface, the interface method is called and its answer used as the shape of the target says; if
not, control goes on behind the hook.
-/

namespace ClassWeave

namespace HookSite

def step (instruction : SymInstruction) : Item := .instruction instruction

/-- Puts an argument of the interface method on the stack. -/
def loadArgument (argument : ValueMarshal) (slot : UInt16) : SymInstruction :=
  match argument with
  | .reference _ => .load .reference slot
  | .primitive .long => .load .long slot
  | .primitive .float => .load .float slot
  | .primitive .double => .load .double slot
  | .primitive _ => .load .int slot

/-- Returns the value of the field that the answer picks. -/
def returnSelected (ifTrue ifFalse : FieldRef) (isFalse isPicked : Label) : List Item :=
  [.branch (.jumpIf (.zero .eq) isFalse),
    step (.field .getStatic ifTrue),
    .branch (.goto isPicked),
    .label isFalse,
    step (.field .getStatic ifFalse),
    .label isPicked,
    .branch (.ret .reference)]

/-- Joins the texts of the chunks in the array on top of the stack, and returns what comes out. The
three locals after `slot` hold the length, the text so far, and the position. -/
def returnJoined (chunkOwner : BinaryName) (chunkMethod : UnqualifiedName) (slot : UInt16)
    (body condition : Label) : List Item :=
  let length := slot + 1
  let builder := slot + 2
  let index := slot + 3
  let string : FieldType := .object .string
  [step (.store .reference slot),
    step (.load .reference slot),
    step (.plain .arrayLength),
    step (.store .int length),
    step (.onClass .new (.object .stringBuilder)),
    step (.plain (.stack .dup)),
    step (.invoke .special (.ofClass .stringBuilder .init [] none)),
    step (.store .reference builder),
    step (.plain (.push .int0)),
    step (.store .int index),
    .branch (.goto condition),
    .label body,
    step (.load .reference builder),
    step (.load .reference slot),
    step (.load .int index),
    step (.plain (.arrayLoad .reference)),
    step (.invoke .virtual (.ofClass chunkOwner chunkMethod [] (some string))),
    step (.invoke .virtual
      (.ofClass .stringBuilder .append [string] (some (.object .stringBuilder)))),
    step (.plain (.stack .pop)),
    step (.increment index 1),
    .label condition,
    step (.load .int index),
    step (.load .int length),
    .branch (.jumpIf (.ints .lt) body),
    step (.load .reference builder),
    step (.invoke .virtual (.ofClass .stringBuilder .toStringName [] (some string))),
    .branch (.ret .reference)]

/-- Wraps the answer in a new reference object, keeps that in a field of the receiver, and returns
the answer. -/
def returnCached (field : FieldRef) (referenceClass : BinaryName) (slot : UInt16) : List Item :=
  [step (.store .reference slot),
    step (.load .reference 0),
    step (.onClass .new (.object referenceClass)),
    step (.plain (.stack .dup)),
    step (.load .reference slot),
    step (.invoke .special (.ofClass referenceClass .init [.object .object] none)),
    step (.field .putField field),
    step (.load .reference slot),
    .branch (.ret .reference)]

/-- What becomes of the answer on top of the stack. `fresh` is the first label that is free. -/
def useAnswer (target : Target) (slot : UInt16) (fresh : Label) : List Item :=
  match target.shape with
  | .entry _ | .callBranch _ => [.branch (.ret (ReturnKind.of target.descriptor.result))]
  | .entrySelect _ ifTrue ifFalse => returnSelected ifTrue ifFalse fresh fresh.next
  | .callResult _ => [step (.store .reference slot)]
  | .aggregate _ chunkOwner chunkMethod =>
    returnJoined chunkOwner chunkMethod slot fresh fresh.next
  | .cache _ field referenceClass => returnCached field referenceClass slot

/-- The first label that is free after the answer has been used. -/
def afterAnswer (shape : TriggerShape) (fresh : Label) : Label :=
  match shape with
  | .entrySelect _ _ _ | .aggregate _ _ _ => fresh.next.next
  | _ => fresh

/-- The hook on the object in a local. `fresh` is the first label that is free. -/
def items (call : HookCall) (target : Target) (slot : UInt16) (fresh : Label) : List Item :=
  [step (.load .reference slot)]
    ++ call.guard fresh
    ++ [step (.load .reference slot)]
    ++ (call.parameters.zip target.argumentSlots).map
      (fun (argument, argumentSlot) => step (loadArgument argument argumentSlot))
    ++ call.items
    ++ useAnswer target slot fresh.next
    ++ HookCall.landing fresh

/-- The first label that is free after the hook. -/
def nextLabel (shape : TriggerShape) (fresh : Label) : Label := afterAnswer shape fresh.next

/-- Are there enough locals after this one for the hook? -/
def hasScratchLocals (shape : TriggerShape) (slot : UInt16) : Bool :=
  match shape with
  | .aggregate _ _ _ => slot.toNat + 3 ≤ 65535
  | _ => true

end HookSite

end ClassWeave
