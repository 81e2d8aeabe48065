import ClassWeave.Proofs.Outcome
import ClassWeave.Typing.Merge
import ClassWeave.Typing.Step

/-!
# The slots of the stack

A stack can note for each value the slot where it begins, and pushing and popping keep those notes
up to date. Instructions that work on such a stack do what they do to a frame, value by value, and
the notes are always the sums of the widths below.
-/

namespace ClassWeave

/-- Values with the slots where they begin, the topmost first, and the slot that is free. -/
structure SlotStack where
  entries : List (Nat × VType)
  next : Nat

namespace SlotStack

def empty : SlotStack := ⟨[], 0⟩

def push (slots : SlotStack) (type : VType) : SlotStack :=
  ⟨(slots.next, type) :: slots.entries, slots.next + type.width⟩

/-- Pops a value, which frees the slot where it begins. -/
def pop? : SlotStack → Option (VType × SlotStack)
  | ⟨[], _⟩ => none
  | ⟨(slot, type) :: rest, _⟩ => some (type, ⟨rest, slot⟩)

/-- Pushes values, the last one ending on top. -/
def pushAll (slots : SlotStack) (types : List VType) : SlotStack := types.foldl push slots

/-- The values alone, the topmost first. -/
def types (slots : SlotStack) : List VType := slots.entries.map Prod.snd

/-- The slots that the entries take. -/
def widthOf (entries : List (Nat × VType)) : Nat :=
  entries.foldr (fun entry slots => entry.2.width + slots) 0

/-- Every value begins where those below it end. -/
structure Numbered (slots : SlotStack) : Prop where
  entry {slot : Nat} {type : VType} {below : List (Nat × VType)} :
    (slot, type) :: below <:+ slots.entries → slot = widthOf below
  next : slots.next = widthOf slots.entries

theorem empty_numbered : empty.Numbered where
  entry suffix := by simp [empty] at suffix
  next := rfl

theorem types_push (slots : SlotStack) (type : VType) :
    (slots.push type).types = type :: slots.types := rfl

theorem Numbered.push {slots : SlotStack} (numbered : slots.Numbered) (type : VType) :
    (slots.push type).Numbered where
  entry suffix := by
    rcases List.suffix_cons_iff.mp suffix with same | earlier
    · cases same
      exact numbered.next
    · exact numbered.entry earlier
  next := by
    rw [SlotStack.push, numbered.next, Nat.add_comm]
    rfl

theorem Numbered.pop {slots rest : SlotStack} {type : VType} (numbered : slots.Numbered)
    (popped : slots.pop? = some (type, rest)) :
    rest.Numbered ∧ slots.types = type :: rest.types := by
  obtain ⟨entries, next⟩ := slots
  cases entries with
  | nil => cases popped
  | cons entry below =>
    cases popped
    exact ⟨⟨fun suffix => numbered.entry (suffix.trans (List.suffix_cons _ _)),
      numbered.entry (List.suffix_refl _)⟩, rfl⟩

theorem types_pushAll (slots : SlotStack) (types : List VType) :
    (slots.pushAll types).types = types.reverse ++ slots.types := by
  induction types generalizing slots with
  | nil => rfl
  | cons type types ih =>
    rw [pushAll, List.foldl_cons, ← pushAll, ih, types_push, List.reverse_cons, List.append_assoc]
    rfl

theorem Numbered.pushAll {slots : SlotStack} (numbered : slots.Numbered) (types : List VType) :
    (slots.pushAll types).Numbered := by
  induction types generalizing slots with
  | nil => exact numbered
  | cons type types ih => exact ih (numbered.push type)

/-- A stack that is built up from its values. -/
theorem types_collect (stack : List VType) : (empty.pushAll stack.reverse).types = stack := by
  rw [types_pushAll, List.reverse_reverse]
  exact List.append_nil stack

end SlotStack

/-- A frame whose stack knows its slots. -/
structure SlotFrame where
  locals : List VType
  slots : SlotStack

/-- The frame without the slots. -/
def SlotFrame.frame (state : SlotFrame) : VFrame := ⟨state.locals, state.slots.types⟩

/-- Changes to a frame whose stack knows its slots. -/
abbrev SlotM (α : Type) := StateT SlotFrame (Except TypeFault) α

namespace SlotM

def fail {α : Type} (fault : TypeFault) : SlotM α := fun _ => .error fault

def pushAll (types : List VType) : SlotM Unit := modify fun state =>
  { state with slots := state.slots.pushAll types }

def pop : SlotM VType := fun state =>
  match state.slots.pop? with
  | none => .error .emptyStack
  | some (type, rest) => .ok (type, { state with slots := rest })

def getLocal (slot : UInt16) : SlotM VType := fun state =>
  match state.locals[slot.toNat]? with
  | some type => .ok (type, state)
  | none => .error .invalidIndex

def setLocal (slot : UInt16) (type : VType) : SlotM Unit := modify fun state =>
  { state with locals := storeLocal state.locals slot.toNat type }

/-- Replaces a type everywhere, and builds up the stack anew. -/
def replaceAll (old new : VType) : SlotM Unit := modify fun state =>
  let replace (type : VType) : VType := if type = old then new else type
  ⟨state.locals.map replace, SlotStack.empty.pushAll (state.slots.types.map replace).reverse⟩

/-- Clears the stack and pushes what is thrown. -/
def throwAway (exception : VType) : SlotM Unit := modify fun state =>
  { state with slots := SlotStack.empty.push exception }

end SlotM

namespace FrameM

/-- Two actions that are built alike, of the same parts in the same order. -/
inductive Mirrors : {α : Type} → FrameM α → SlotM α → Prop where
  | pure {α : Type} (value : α) : Mirrors (pure value) (pure value)
  | fail {α : Type} (fault : TypeFault) : Mirrors (fail fault : FrameM α) (SlotM.fail fault)
  | bind {α β : Type} {action : FrameM α} {mirror : SlotM α} {next : α → FrameM β}
      {mirrorNext : α → SlotM β} (first : Mirrors action mirror)
      (second : ∀ value, Mirrors (next value) (mirrorNext value)) :
      Mirrors (action >>= next) (mirror >>= mirrorNext)
  | push (type : VType) : Mirrors (push type) (SlotM.pushAll [type])
  | pushAll (types : List VType) : Mirrors (pushAll types) (SlotM.pushAll types)
  | pop : Mirrors pop SlotM.pop
  | getLocal (slot : UInt16) : Mirrors (getLocal slot) (SlotM.getLocal slot)
  | setLocal (slot : UInt16) (type : VType) :
    Mirrors (setLocal slot type) (SlotM.setLocal slot type)
  | replaceAll (old new : VType) : Mirrors (replaceAll old new) (SlotM.replaceAll old new)
  | throwAway (exception : VType) :
      Mirrors (modify fun frame => { frame with stack := [exception] })
        (SlotM.throwAway exception)

/-- Both actions come to the same, and the slots are right again where they go well. -/
structure Agrees {α : Type} (action : FrameM α) (mirror : SlotM α) : Prop where
  same {state : SlotFrame} : state.slots.Numbered →
    action state.frame = (fun result => (result.1, result.2.frame)) <$> mirror state
  numbered {state after : SlotFrame} {value : α} : state.slots.Numbered →
    mirror state = .ok (value, after) → after.slots.Numbered

/-- Changes that do not fail come to the same if they do so to every frame. -/
theorem agrees_modify {change : VFrame → VFrame} {mirror : SlotFrame → SlotFrame}
    (same : ∀ state, change state.frame = (mirror state).frame)
    (numbered : ∀ state, state.slots.Numbered → (mirror state).slots.Numbered) :
    Agrees (modify change) (modify mirror) where
  same {state} _ := congrArg (fun frame => Except.ok ((), frame)) (same state)
  numbered {state after value} before done := by
    cases done
    exact numbered state before

theorem agrees_pop : Agrees pop SlotM.pop where
  same {state} _ := by
    obtain ⟨locals, ⟨entries, next⟩⟩ := state
    cases entries <;> rfl
  numbered {state after value} numbered done := by
    unfold SlotM.pop at done
    split at done
    · cases done
    · rename_i popped
      cases done
      exact (numbered.pop popped).1

theorem agrees_getLocal (slot : UInt16) : Agrees (getLocal slot) (SlotM.getLocal slot) where
  same {state} _ := by
    rw [FrameM.getLocal, SlotM.getLocal, SlotFrame.frame]
    cases state.locals[slot.toNat]? <;> rfl
  numbered {state after value} numbered done := by
    unfold SlotM.getLocal at done
    split at done
    · cases done
      exact numbered
    · cases done

theorem Agrees.bind {α β : Type} {action : FrameM α} {mirror : SlotM α} {next : α → FrameM β}
    {mirrorNext : α → SlotM β} (first : Agrees action mirror)
    (second : ∀ value, Agrees (next value) (mirrorNext value)) :
    Agrees (action >>= next) (mirror >>= mirrorNext) where
  same {state} numbered := by
    show (action state.frame >>= fun result => next result.1 result.2) =
      (fun result => (result.1, result.2.frame)) <$>
        (mirror state >>= fun result => mirrorNext result.1 result.2)
    rw [first.same numbered]
    cases ran : mirror state with
    | error fault => rfl
    | ok result => exact (second result.1).same (first.numbered numbered ran)
  numbered numbered done := by
    obtain ⟨⟨found, middle⟩, ran, later⟩ := Outcome.bind_ok.mp done
    exact (second found).numbered (first.numbered numbered ran) later

/-- What is built alike comes to the same. -/
theorem Mirrors.agrees {α : Type} {action : FrameM α} {mirror : SlotM α}
    (mirrors : Mirrors action mirror) : Agrees action mirror := by
  induction mirrors with
  | pure value =>
    refine ⟨fun _ => rfl, fun numbered done => ?_⟩
    cases done
    exact numbered
  | fail fault => exact ⟨fun _ => rfl, fun _ done => by cases done⟩
  | bind _ _ first second => exact first.bind second
  | push type => exact agrees_modify (fun _ => rfl) fun _ numbered => numbered.push type
  | pushAll types =>
    refine agrees_modify (fun state => ?_) fun _ numbered => numbered.pushAll types
    exact congrArg (Frame.mk state.locals) (state.slots.types_pushAll types).symm
  | pop => exact agrees_pop
  | getLocal slot => exact agrees_getLocal slot
  | setLocal slot type => exact agrees_modify (fun _ => rfl) fun _ numbered => numbered
  | replaceAll old new =>
    refine agrees_modify (fun state => ?_) fun _ _ => SlotStack.empty_numbered.pushAll _
    exact congrArg (Frame.mk _) (SlotStack.types_collect _).symm
  | throwAway exception =>
    exact agrees_modify (fun _ => rfl) fun _ _ => SlotStack.empty_numbered.push exception

/-- The action can be built on a stack that knows its slots. -/
def Mirrored {α : Type} (action : FrameM α) : Prop := ∃ mirror, Mirrors action mirror

section Mirrored

variable {α β : Type}

theorem Mirrored.pure (value : α) : Mirrored (Pure.pure value : FrameM α) := ⟨_, .pure value⟩

theorem Mirrored.fail (fault : TypeFault) : Mirrored (FrameM.fail fault : FrameM α) :=
  ⟨_, .fail fault⟩

theorem Mirrored.bind {action : FrameM α} {next : α → FrameM β} (first : Mirrored action)
    (second : ∀ value, Mirrored (next value)) : Mirrored (action >>= next) := by
  obtain ⟨mirror, mirrors⟩ := first
  choose mirrorNext mirrorsNext using second
  exact ⟨_, mirrors.bind mirrorsNext⟩

theorem Mirrored.ite {condition : Prop} [Decidable condition] {action other : FrameM α}
    (yes : Mirrored action) (no : Mirrored other) :
    Mirrored (if condition then action else other) := by
  split
  · exact yes
  · exact no

theorem mirrored_push (type : VType) : Mirrored (push type) := ⟨_, .push type⟩

theorem mirrored_pushAll (types : List VType) : Mirrored (pushAll types) := ⟨_, .pushAll types⟩

theorem mirrored_pop : Mirrored pop := ⟨_, .pop⟩

theorem mirrored_getLocal (slot : UInt16) : Mirrored (getLocal slot) := ⟨_, .getLocal slot⟩

theorem mirrored_setLocal (slot : UInt16) (type : VType) : Mirrored (setLocal slot type) :=
  ⟨_, .setLocal slot type⟩

theorem mirrored_replaceAll (old new : VType) : Mirrored (replaceAll old new) :=
  ⟨_, .replaceAll old new⟩

theorem mirrored_popSingle : Mirrored popSingle :=
  mirrored_pop.bind fun type => .ite (.pure type) (.fail _)

theorem mirrored_popReference : Mirrored popReference :=
  mirrored_pop.bind fun type => .ite (.pure type) (.fail _)

theorem mirrored_popExpecting (expected : VType) : Mirrored (popExpecting expected) :=
  mirrored_pop.bind fun _ => .ite (.pure _) (.fail _)

theorem mirrored_popArray : Mirrored popArray := by
  refine mirrored_pop.bind fun type => ?_
  split
  · exact .pure _
  · exact .pure _
  · exact .fail _

theorem mirrored_popForField (type : FieldType) : Mirrored (popForField type) := by
  cases type with
  | base type => exact mirrored_popExpecting _
  | ref type => exact mirrored_popReference.bind fun _ => .pure _

theorem mirrored_convert (expected result : VType) : Mirrored (convert expected result) :=
  (mirrored_popExpecting expected).bind fun _ => mirrored_push result

theorem mirrored_expectLocal (slot : UInt16) (expected : VType) :
    Mirrored (expectLocal slot expected) :=
  (mirrored_getLocal slot).bind fun _ => .ite (.pure _) (.fail _)

theorem mirrored_forM {action : α → FrameM Unit} (each : ∀ value, Mirrored (action value))
    (values : List α) : Mirrored (values.forM action) := by
  induction values with
  | nil => exact .pure _
  | cons value values ih => exact (each value).bind fun _ => ih

theorem mirrored_popArguments (parameters : List FieldType) :
    Mirrored (popArguments parameters) :=
  mirrored_forM mirrored_popForField _

theorem mirrored_pushResult (result : Option FieldType) : Mirrored (pushResult result) := by
  cases result with
  | none => exact .pure _
  | some type => exact mirrored_push _

theorem mirrored_stackOp (op : StackOp) : Mirrored (stackOp op) := by
  have shuffle (order : VType → List VType) :
      Mirrored (popSingle >>= fun last => pushAll (order last)) :=
    mirrored_popSingle.bind fun _ => mirrored_pushAll _
  cases op with
  | pop => exact mirrored_popSingle.bind fun _ => .pure _
  | pop2 =>
    exact mirrored_pop.bind fun _ => .ite (mirrored_popSingle.bind fun _ => .pure _) (.pure _)
  | dup => exact shuffle _
  | dupX1 | swap => exact mirrored_popSingle.bind fun _ => shuffle _
  | dupX2 =>
    exact mirrored_popSingle.bind fun _ => mirrored_pop.bind fun _ =>
      .ite (shuffle _) (mirrored_pushAll _)
  | dup2 => exact mirrored_pop.bind fun _ => .ite (shuffle _) (mirrored_pushAll _)
  | dup2X1 =>
    exact mirrored_pop.bind fun _ => mirrored_popSingle.bind fun _ =>
      .ite (shuffle _) (mirrored_pushAll _)
  | dup2X2 =>
    exact mirrored_pop.bind fun _ =>
      .ite (mirrored_popSingle.bind fun _ => mirrored_pop.bind fun _ =>
          .ite (shuffle _) (mirrored_pushAll _))
        (mirrored_pop.bind fun _ => .ite (shuffle _) (mirrored_pushAll _))

theorem mirrored_pushElement (array : VType) : Mirrored (pushElement array) := by
  unfold pushElement
  split
  · split
    · exact mirrored_push _
    · exact .fail _
  · exact mirrored_push _
  · exact .fail _

theorem mirrored_plain (op : Plain) : Mirrored (plain op) := by
  cases op with
  | nop => exact .pure _
  | push constant => exact mirrored_push _
  | arrayLoad kind =>
    refine (mirrored_popExpecting _).bind fun _ => mirrored_popArray.bind fun array => ?_
    split
    · exact mirrored_push _
    · exact mirrored_pushElement array
  | arrayStore kind =>
    have rest : Mirrored
        (popExpecting .integer >>= fun _ => popArray >>= fun _ => Pure.pure ()) :=
      (mirrored_popExpecting _).bind fun _ => mirrored_popArray.bind fun _ => .pure _
    simp only [plain]
    split
    · exact (mirrored_popExpecting _).bind fun _ => rest
    · exact mirrored_popReference.bind fun _ => rest
  | stack op => exact mirrored_stackOp op
  | arithmetic op kind | bitwise op kind =>
    exact (mirrored_popExpecting _).bind fun _ => (mirrored_popExpecting _).bind fun _ =>
      mirrored_push _
  | negate kind => exact mirrored_convert _ _
  | convert conversion => exact mirrored_convert _ _
  | shift op kind | compareLongs | compareFloats kind order =>
    exact (mirrored_popExpecting _).bind fun _ => mirrored_convert _ _
  | arrayLength => exact mirrored_popArray.bind fun _ => mirrored_push _
  | monitorEnter | monitorExit => exact mirrored_popReference.bind fun _ => .pure _

theorem mirrored_pushLoadable (width : Nat) (constant : Loadable) :
    Mirrored (pushLoadable width constant) :=
  .ite (mirrored_push _) (.fail _)

theorem mirrored_construct (thisClass : BinaryName) (method : MethodRef) :
    Mirrored (construct thisClass method) := by
  have checked : Mirrored
      (if method.descriptor.result.isSome then FrameM.fail .invalidType else Pure.pure ()) :=
    .ite (.fail _) (.pure _)
  refine mirrored_pop.bind fun type => ?_
  cases type with
  | uninitializedThis | uninitialized source =>
    exact (mirrored_replaceAll _ _).bind fun _ => checked
  | top | integer | float | double | long | null | object =>
    exact (Mirrored.fail _).bind fun _ => checked

theorem mirrored_invoke (thisClass : BinaryName) (kind : InvokeKind) (method : MethodRef) :
    Mirrored (invoke thisClass kind method) := by
  refine (mirrored_popArguments _).bind fun _ => .ite (mirrored_construct thisClass method) ?_
  split
  · exact mirrored_popReference.bind fun _ => mirrored_pushResult _
  · exact mirrored_pushResult _

theorem mirrored_field (op : FieldOp) (ref : FieldRef) : Mirrored (field op ref) := by
  cases op with
  | getStatic => exact mirrored_push _
  | putStatic => exact mirrored_popForField _
  | getField => exact mirrored_popReference.bind fun _ => mirrored_push _
  | putField =>
    exact (mirrored_popForField _).bind fun _ => mirrored_popReference.bind fun _ => .pure _

theorem mirrored_onClass (item : Nat) (op : ClassOp) (type : RefType) :
    Mirrored (onClass item op type) := by
  cases op with
  | new => exact .ite (.fail _) (mirrored_push _)
  | newArray => exact mirrored_convert _ _
  | checkCast | instanceOf => exact mirrored_popReference.bind fun _ => mirrored_push _

theorem mirrored_load (kind : SlotKind) (slot : UInt16) : Mirrored (load kind slot) := by
  unfold load
  split
  · exact (mirrored_expectLocal slot _).bind fun _ => mirrored_push _
  · exact (mirrored_getLocal slot).bind fun _ => .ite (mirrored_push _) (.fail _)

theorem mirrored_store (kind : SlotKind) (slot : UInt16) : Mirrored (store kind slot) := by
  unfold store
  split
  · exact (mirrored_popExpecting _).bind fun _ => mirrored_setLocal slot _
  · exact mirrored_popReference.bind fun _ => mirrored_setLocal slot _

theorem mirrored_instruction (thisClass : BinaryName) (item : Nat) (step : SymInstruction) :
    Mirrored (instruction thisClass item step) := by
  cases step with
  | plain op => exact mirrored_plain op
  | pushByte | pushShort => exact mirrored_push _
  | loadConstant | loadWideConstant => exact mirrored_pushLoadable _ _
  | load kind slot => exact mirrored_load kind slot
  | store kind slot => exact mirrored_store kind slot
  | increment slot => exact mirrored_expectLocal slot _
  | field op ref => exact mirrored_field op ref
  | invoke kind method => exact mirrored_invoke thisClass kind method
  | invokeDynamic site =>
    exact (mirrored_popArguments _).bind fun _ => mirrored_pushResult _
  | newPrimitiveArray => exact mirrored_convert _ _
  | onClass op type => exact mirrored_onClass item op type
  | newMultiArray type dimensions =>
    exact (mirrored_forM (fun _ => mirrored_popExpecting _) _).bind fun _ => mirrored_push _

theorem mirrored_test (test : Test) : Mirrored (FrameM.test test) := by
  cases test with
  | zero => exact mirrored_popExpecting _
  | ints => exact (mirrored_popExpecting _).bind fun _ => mirrored_popExpecting _
  | references =>
    exact mirrored_popReference.bind fun _ => mirrored_popReference.bind fun _ => .pure _
  | null => exact mirrored_popReference.bind fun _ => .pure _

theorem mirrored_returnPrimitive (type : VType) (result : Option FieldType) :
    Mirrored (returnPrimitive type result) :=
  (mirrored_popExpecting type).bind fun _ => .ite (.pure _) (.fail _)

theorem mirrored_branch {τ : Type} (result : Option FieldType) (jump : Branch τ) :
    Mirrored (branch result jump) := by
  cases jump with
  | jumpIf test => exact mirrored_test test
  | goto => exact .pure _
  | tableSwitch | lookupSwitch => exact mirrored_popExpecting _
  | ret kind =>
    cases kind with
    | int | long | float | double => exact mirrored_returnPrimitive _ result
    | reference =>
      refine mirrored_popReference.bind fun _ => ?_
      split
      · exact .pure _
      · exact .fail _
    | void => exact .ite (.pure _) (.fail _)
  | athrow => exact mirrored_popReference.bind fun _ => ⟨_, .throwAway _⟩

end Mirrored

end FrameM

end ClassWeave
