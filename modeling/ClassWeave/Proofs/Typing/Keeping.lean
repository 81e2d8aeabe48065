import ClassWeave.Proofs.Typing.Steps
import ClassWeave.Typing.Inference

/-!
# Items that leave the locals alone

Only stores write to locals, and only constructor calls turn what is in them into something else.
-/

namespace ClassWeave

/-- The item neither stores a local nor initializes an object that may be in one. -/
def Item.keepsLocals : Item → Bool
  | .instruction (.store _ _) | .instruction (.invoke .special _) => false
  | _ => true

/-- The item leaves the locals alone, and the numbers in them too. -/
def Item.readsOnly : Item → Bool
  | .instruction (.store _ _) | .instruction (.increment _ _)
  | .instruction (.invoke .special _) => false
  | _ => true

theorem Item.keepsLocals_of_readsOnly {item : Item} (reads : item.readsOnly = true) :
    item.keepsLocals = true := by
  unfold Item.keepsLocals
  split
  · cases reads
  · cases reads
  · rfl

namespace FrameM

variable {α β : Type}

/-- Where an action goes well, the locals are what they were. -/
def Keeps (action : FrameM α) : Prop :=
  ∀ ⦃frame value after⦄, action frame = .ok (value, after) → after.locals = frame.locals

theorem Keeps.pure (value : α) : Keeps (Pure.pure value : FrameM α) := by
  intro frame result after done
  cases done
  rfl

theorem Keeps.fail (fault : TypeFault) : Keeps (FrameM.fail fault : FrameM α) := by
  intro frame result after done
  cases done

theorem Keeps.bind {action : FrameM α} {next : α → FrameM β} (first : Keeps action)
    (second : ∀ value, Keeps (next value)) : Keeps (action >>= next) := by
  intro frame result after done
  obtain ⟨⟨value, middle⟩, ran, later⟩ := Outcome.bind_ok.mp done
  exact (second value later).trans (first ran)

theorem Keeps.ite {condition : Prop} [Decidable condition] {action other : FrameM α}
    (yes : Keeps action) (no : Keeps other) : Keeps (if condition then action else other) := by
  split
  · exact yes
  · exact no

theorem keeps_push (type : VType) : Keeps (push type) := by
  intro frame result after done
  cases done
  rfl

theorem keeps_pushAll (types : List VType) : Keeps (pushAll types) := by
  intro frame result after done
  cases done
  rfl

theorem keeps_pop : Keeps pop := by
  intro frame result after done
  unfold pop at done
  split at done
  · cases done
  · cases done
    rfl

theorem keeps_getLocal (slot : UInt16) : Keeps (getLocal slot) := by
  intro frame result after done
  unfold getLocal at done
  split at done
  · cases done
    rfl
  · cases done

theorem keeps_popSingle : Keeps popSingle :=
  keeps_pop.bind fun type => .ite (.pure type) (.fail _)

theorem keeps_popReference : Keeps popReference :=
  keeps_pop.bind fun type => .ite (.pure type) (.fail _)

theorem keeps_popExpecting (expected : VType) : Keeps (popExpecting expected) :=
  keeps_pop.bind fun _ => .ite (.pure _) (.fail _)

theorem keeps_popArray : Keeps popArray := by
  refine keeps_pop.bind fun type => ?_
  split
  · exact .pure _
  · exact .pure _
  · exact .fail _

theorem keeps_popForField (type : FieldType) : Keeps (popForField type) := by
  cases type with
  | base type => exact keeps_popExpecting _
  | ref type => exact keeps_popReference.bind fun _ => .pure _

theorem keeps_convert (expected result : VType) : Keeps (convert expected result) :=
  (keeps_popExpecting expected).bind fun _ => keeps_push result

theorem keeps_expectLocal (slot : UInt16) (expected : VType) : Keeps (expectLocal slot expected) :=
  (keeps_getLocal slot).bind fun _ => .ite (.pure _) (.fail _)

theorem keeps_forM {action : α → FrameM Unit} (each : ∀ value, Keeps (action value))
    (values : List α) : Keeps (values.forM action) := by
  induction values with
  | nil => exact .pure _
  | cons value values ih => exact (each value).bind fun _ => ih

theorem keeps_popArguments (parameters : List FieldType) : Keeps (popArguments parameters) :=
  keeps_forM keeps_popForField _

theorem keeps_pushResult (result : Option FieldType) : Keeps (pushResult result) := by
  cases result with
  | none => exact .pure _
  | some type => exact keeps_push _

theorem keeps_stackOp (op : StackOp) : Keeps (stackOp op) := by
  cases op with
  | pop => exact keeps_popSingle.bind fun _ => .pure _
  | pop2 => exact keeps_pop.bind fun _ => .ite (keeps_popSingle.bind fun _ => .pure _) (.pure _)
  | dup => exact keeps_popSingle.bind fun _ => keeps_pushAll _
  | dupX1 | swap =>
    exact keeps_popSingle.bind fun _ => keeps_popSingle.bind fun _ => keeps_pushAll _
  | dupX2 =>
    exact keeps_popSingle.bind fun _ => keeps_pop.bind fun _ =>
      .ite (keeps_popSingle.bind fun _ => keeps_pushAll _) (keeps_pushAll _)
  | dup2 =>
    exact keeps_pop.bind fun _ =>
      .ite (keeps_popSingle.bind fun _ => keeps_pushAll _) (keeps_pushAll _)
  | dup2X1 =>
    exact keeps_pop.bind fun _ => keeps_popSingle.bind fun _ =>
      .ite (keeps_popSingle.bind fun _ => keeps_pushAll _) (keeps_pushAll _)
  | dup2X2 =>
    exact keeps_pop.bind fun _ =>
      .ite (keeps_popSingle.bind fun _ => keeps_pop.bind fun _ =>
          .ite (keeps_popSingle.bind fun _ => keeps_pushAll _) (keeps_pushAll _))
        (keeps_pop.bind fun _ =>
          .ite (keeps_popSingle.bind fun _ => keeps_pushAll _) (keeps_pushAll _))

theorem keeps_pushElement (array : VType) : Keeps (pushElement array) := by
  unfold pushElement
  split
  · split
    · exact keeps_push _
    · exact .fail _
  · exact keeps_push _
  · exact .fail _

theorem keeps_plain (op : Plain) : Keeps (plain op) := by
  cases op with
  | nop => exact .pure _
  | push constant => exact keeps_push _
  | arrayLoad kind =>
    refine (keeps_popExpecting _).bind fun _ => keeps_popArray.bind fun array => ?_
    split
    · exact keeps_push _
    · exact keeps_pushElement array
  | arrayStore kind =>
    have rest : Keeps (popExpecting .integer >>= fun _ => popArray >>= fun _ => Pure.pure ()) :=
      (keeps_popExpecting _).bind fun _ => keeps_popArray.bind fun _ => .pure _
    simp only [plain]
    split
    · exact (keeps_popExpecting _).bind fun _ => rest
    · exact keeps_popReference.bind fun _ => rest
  | stack op => exact keeps_stackOp op
  | arithmetic op kind | bitwise op kind =>
    exact (keeps_popExpecting _).bind fun _ => (keeps_popExpecting _).bind fun _ => keeps_push _
  | negate kind => exact keeps_convert _ _
  | convert conversion => exact keeps_convert _ _
  | shift op kind | compareLongs | compareFloats kind order =>
    exact (keeps_popExpecting _).bind fun _ => keeps_convert _ _
  | arrayLength => exact keeps_popArray.bind fun _ => keeps_push _
  | monitorEnter | monitorExit => exact keeps_popReference.bind fun _ => .pure _

theorem keeps_pushLoadable (width : Nat) (constant : Loadable) :
    Keeps (pushLoadable width constant) :=
  .ite (keeps_push _) (.fail _)

/-- A call other than a constructor's takes its arguments off the stack and leaves the result. -/
theorem keeps_invoke (thisClass : BinaryName) {kind : InvokeKind} (method : MethodRef)
    (other : kind ≠ .special) : Keeps (invoke thisClass kind method) := by
  refine (keeps_popArguments _).bind fun _ => ?_
  rw [if_neg fun special => other special.1]
  split
  · exact keeps_popReference.bind fun _ => keeps_pushResult _
  · exact keeps_pushResult _

theorem keeps_field (op : FieldOp) (ref : FieldRef) : Keeps (field op ref) := by
  cases op with
  | getStatic => exact keeps_push _
  | putStatic => exact keeps_popForField _
  | getField => exact keeps_popReference.bind fun _ => keeps_push _
  | putField =>
    exact (keeps_popForField _).bind fun _ => keeps_popReference.bind fun _ => .pure _

theorem keeps_onClass (item : Nat) (op : ClassOp) (type : RefType) : Keeps (onClass item op type) := by
  cases op with
  | new => exact .ite (.fail _) (keeps_push _)
  | newArray => exact keeps_convert _ _
  | checkCast | instanceOf => exact keeps_popReference.bind fun _ => keeps_push _

theorem keeps_load (kind : SlotKind) (slot : UInt16) : Keeps (load kind slot) := by
  unfold load
  split
  · exact (keeps_expectLocal slot _).bind fun _ => keeps_push _
  · exact (keeps_getLocal slot).bind fun _ => .ite (keeps_push _) (.fail _)

theorem keeps_instruction (thisClass : BinaryName) (position : Nat) {step : SymInstruction}
    (keeps : (Item.instruction step).keepsLocals = true) :
    Keeps (instruction thisClass position step) := by
  cases step with
  | plain op => exact keeps_plain op
  | pushByte | pushShort => exact keeps_push _
  | loadConstant | loadWideConstant => exact keeps_pushLoadable _ _
  | load kind slot => exact keeps_load kind slot
  | store => cases keeps
  | increment slot => exact keeps_expectLocal slot _
  | field op ref => exact keeps_field op ref
  | invoke kind method =>
    cases kind with
    | special => cases keeps
    | static | virtual | interface => exact keeps_invoke thisClass method nofun
  | invokeDynamic site => exact (keeps_popArguments _).bind fun _ => keeps_pushResult _
  | newPrimitiveArray => exact keeps_convert _ _
  | onClass op type => exact keeps_onClass position op type
  | newMultiArray type dimensions =>
    exact (keeps_forM (fun _ => keeps_popExpecting _) _).bind fun _ => keeps_push _

theorem keeps_test (test : Test) : Keeps (FrameM.test test) := by
  cases test with
  | zero => exact keeps_popExpecting _
  | ints => exact (keeps_popExpecting _).bind fun _ => keeps_popExpecting _
  | references =>
    exact keeps_popReference.bind fun _ => keeps_popReference.bind fun _ => .pure _
  | null => exact keeps_popReference.bind fun _ => .pure _

theorem keeps_returnPrimitive (type : VType) (result : Option FieldType) :
    Keeps (returnPrimitive type result) :=
  (keeps_popExpecting type).bind fun _ => .ite (.pure _) (.fail _)

theorem keeps_branch {τ : Type} (result : Option FieldType) (jump : Branch τ) :
    Keeps (branch result jump) := by
  cases jump with
  | jumpIf test => exact keeps_test test
  | goto => exact .pure _
  | tableSwitch | lookupSwitch => exact keeps_popExpecting _
  | ret kind =>
    cases kind with
    | int | long | float | double => exact keeps_returnPrimitive _ result
    | reference =>
      refine keeps_popReference.bind fun _ => ?_
      split
      · exact .pure _
      · exact .fail _
    | void => exact .ite (.pure _) (.fail _)
  | athrow =>
    refine keeps_popReference.bind fun _ => ?_
    intro frame value after done
    cases done
    rfl

end FrameM

/-- Such an item leaves the locals as they were. -/
theorem FlowGraph.after_locals {method : MethodContext} {position : Nat} {before after : VFrame}
    {item : Item} (keeps : item.keepsLocals = true)
    (done : FlowGraph.after method position before item = .ok after) :
    after.locals = before.locals := by
  cases item with
  | label | line =>
    cases done
    rfl
  | instruction step =>
    exact FrameM.keeps_instruction method.thisClass position keeps (VFrame.execute_ok.mp done)
  | branch jump =>
    exact FrameM.keeps_branch method.descriptor.result jump (VFrame.executeBranch_ok.mp done)

end ClassWeave
