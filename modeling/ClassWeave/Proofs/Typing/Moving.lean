import ClassWeave.Proofs.Typing.Order
import ClassWeave.Proofs.Typing.Steps
import ClassWeave.Typing.Inference

/-!
# Frames of code that moves

New objects are known by the position of the item that creates them. When items move, the frames
move with them: what an item does to a moved frame is what it did to the frame, moved.
-/

namespace ClassWeave

namespace VType

/-- The type of the same value after items have moved. -/
def moved (move : Nat → Nat) : VType → VType
  | .uninitialized source => .uninitialized (move source)
  | .top => .top
  | .integer => .integer
  | .float => .float
  | .double => .double
  | .long => .long
  | .null => .null
  | .uninitializedThis => .uninitializedThis
  | .object type => .object type

variable {move : Nat → Nat}

@[simp] theorem moved_width (type : VType) : (type.moved move).width = type.width := by
  cases type <;> rfl

@[simp] theorem moved_isReference (type : VType) :
    (type.moved move).isReference = type.isReference := by
  cases type <;> rfl

@[simp] theorem moved_top : moved move .top = VerificationType.top := rfl

theorem moved_eq_top {type : VType} : type.moved move = .top ↔ type = .top := by
  cases type <;> simp [moved]

@[simp] theorem moved_ofFieldType (type : FieldType) :
    (ofFieldType type).moved move = ofFieldType type := by
  match type with
  | .ref _ => rfl
  | .base base => cases base <;> rfl

theorem moved_injective (injective : Function.Injective move) :
    Function.Injective (moved move) := by
  intro first second same
  cases first <;> cases second <;> simp_all [moved]
  exact injective same

end VType

/-- The same frame after items have moved. -/
def VFrame.moved (move : Nat → Nat) (frame : VFrame) : VFrame :=
  ⟨frame.locals.map (VType.moved move), frame.stack.map (VType.moved move)⟩

namespace FrameM

variable {move : Nat → Nat} {α β γ δ : Type}

/-- Where an action goes well, another one does the same to moved frames. -/
def Carries (move : Nat → Nat) (change : α → β) (action : FrameM α) (image : FrameM β) : Prop :=
  ∀ ⦃frame value after⦄, action frame = .ok (value, after) →
    image (frame.moved move) = .ok (change value, after.moved move)

theorem carries_pure (change : α → β) (value : α) :
    Carries move change (pure value) (pure (change value)) := by
  intro frame result after done
  cases done
  rfl

theorem carries_fail (change : α → β) (fault : TypeFault) (image : FrameM β) :
    Carries move change (fail fault) image := by
  intro frame result after done
  cases done

theorem Carries.bind {change : α → β} {later : γ → δ} {action : FrameM α} {image : FrameM β}
    {next : α → FrameM γ} {nextImage : β → FrameM δ} (first : Carries move change action image)
    (second : ∀ value, Carries move later (next value) (nextImage (change value))) :
    Carries move later (action >>= next) (image >>= nextImage) := by
  intro frame result after done
  obtain ⟨⟨value, middle⟩, ran, rest⟩ := Outcome.bind_ok.mp done
  exact Outcome.bind_ok.mpr ⟨_, first ran, second value rest⟩

theorem carries_push (type : VType) :
    Carries move id (push type) (push (type.moved move)) := by
  intro frame result after done
  cases done
  rfl

theorem carries_pushAll (types : List VType) :
    Carries move id (pushAll types) (pushAll (types.map (VType.moved move))) := by
  intro frame result after done
  cases done
  simp [pushAll, modify, modifyGet, MonadStateOf.modifyGet, StateT.modifyGet, VFrame.moved, pure,
    Except.pure]

theorem carries_pop : Carries move (VType.moved move) pop pop := by
  intro frame result after done
  obtain ⟨locals, stack⟩ := frame
  cases stack with
  | nil => cases done
  | cons type rest =>
    cases done
    rfl

theorem carries_getLocal (slot : UInt16) :
    Carries move (VType.moved move) (getLocal slot) (getLocal slot) := by
  intro frame result after done
  unfold getLocal at done ⊢
  split at done
  · rename_i found
    cases done
    simp [VFrame.moved, found]
  · cases done

theorem moved_getD_width (locals : List VType) (slot : Nat) :
    ((locals.map (VType.moved move)).getD slot .top).width = (locals.getD slot .top).width := by
  simp only [List.getD_eq_getElem?_getD, List.getElem?_map]
  cases locals[slot]? with
  | none => rfl
  | some type => exact VType.moved_width type

theorem moved_set (locals : List VType) (slot : Nat) (type : VType) :
    (locals.map (VType.moved move)).set slot (type.moved move) =
      (locals.set slot type).map (VType.moved move) :=
  (List.map_set ..).symm

theorem moved_storeLocal (locals : List VType) (slot : Nat) (type : VType) :
    storeLocal (locals.map (VType.moved move)) slot (type.moved move) =
      (storeLocal locals slot type).map (VType.moved move) := by
  have unused (locals : List VType) (slot : Nat) :
      (locals.map (VType.moved move)).set slot .top =
        (locals.set slot .top).map (VType.moved move) := moved_set locals slot .top
  have padded (count : Nat) : locals.map (VType.moved move) ++
      List.replicate count VerificationType.top =
        (locals ++ List.replicate count VerificationType.top).map (VType.moved move) := by
    rw [List.map_append, List.map_replicate]
    rfl
  simp only [storeLocal, List.length_map, VType.moved_width, padded, moved_getD_width, unused,
    moved_set, ← apply_ite (List.map (VType.moved move))]

theorem carries_setLocal (slot : UInt16) (type : VType) :
    Carries move id (setLocal slot type) (setLocal slot (type.moved move)) := by
  intro frame result after done
  cases done
  simp [setLocal, modify, modifyGet, MonadStateOf.modifyGet, StateT.modifyGet, VFrame.moved, pure,
    Except.pure, moved_storeLocal]

theorem carries_replaceAll (injective : Function.Injective move) (old new : VType) :
    Carries move id (replaceAll old new) (replaceAll (old.moved move) (new.moved move)) := by
  intro frame result after done
  cases done
  have each (type : VType) :
      (if type.moved move = old.moved move then new.moved move else type.moved move) =
        (if type = old then new else type).moved move := by
    by_cases same : type = old
    · rw [if_pos same, if_pos (congrArg _ same)]
    · rw [if_neg same, if_neg fun moved => same (VType.moved_injective injective moved)]
  simp [replaceAll, modify, modifyGet, MonadStateOf.modifyGet, StateT.modifyGet, VFrame.moved, pure,
    Except.pure, each]

/-- A type that is the same wherever items are. -/
def Fixed (type : VType) : Prop := ∀ move, type.moved move = type

theorem carries_popSingle : Carries move (VType.moved move) popSingle popSingle := by
  refine carries_pop.bind fun type => ?_
  rw [VType.moved_width]
  split
  · exact carries_pure _ type
  · exact carries_fail ..

theorem carries_popReference : Carries move (VType.moved move) popReference popReference := by
  refine carries_pop.bind fun type => ?_
  rw [VType.moved_isReference]
  split
  · exact carries_pure _ type
  · exact carries_fail ..

theorem carries_popExpecting {expected : VType} (fixed : Fixed expected) :
    Carries move id (popExpecting expected) (popExpecting expected) := by
  refine carries_pop.bind fun type => ?_
  split
  · rename_i same
    rw [same, fixed move, if_pos rfl]
    exact carries_pure ..
  · exact carries_fail ..

theorem carries_popArray : Carries move (VType.moved move) popArray popArray := by
  refine carries_pop.bind fun type => ?_
  match type with
  | .object (.array extra element) => exact carries_pure _ _
  | .null => exact carries_pure _ _
  | .object (.object _) | .top | .integer | .float | .long | .double | .uninitializedThis
  | .uninitialized _ => exact carries_fail ..

theorem fixed_ofFieldType (type : FieldType) : Fixed (VType.ofFieldType type) :=
  fun _ => VType.moved_ofFieldType type

theorem carries_popForField (type : FieldType) :
    Carries move id (popForField type) (popForField type) := by
  cases type with
  | base base => exact carries_popExpecting (fixed_ofFieldType _)
  | ref ref => exact carries_popReference.bind fun _ => carries_pure ..

theorem carries_expectLocal (slot : UInt16) {expected : VType} (fixed : Fixed expected) :
    Carries move id (expectLocal slot expected) (expectLocal slot expected) := by
  refine (carries_getLocal slot).bind fun type => ?_
  split
  · rename_i same
    rw [same, fixed move, if_pos rfl]
    exact carries_pure ..
  · exact carries_fail ..

theorem carries_pushFixed {type : VType} (fixed : Fixed type) :
    Carries move id (push type) (push type) := by
  have moved : Carries move id (push type) (push (type.moved move)) := carries_push type
  rwa [fixed move] at moved

theorem carries_convert {expected result : VType} (first : Fixed expected) (second : Fixed result) :
    Carries move id (convert expected result) (convert expected result) :=
  (carries_popExpecting first).bind fun _ => carries_pushFixed second

theorem carries_discard {action image : FrameM VType}
    (carries : Carries move (VType.moved move) action image) :
    Carries move id (do let _ ← action) (do let _ ← image) :=
  carries.bind fun _ => carries_pure ..

/-- Values keep their width, so the same number of slots is looked at. -/
theorem carries_byWidth {type : VType} {narrow broad narrowImage broadImage : FrameM Unit}
    (ofNarrow : Carries move id narrow narrowImage) (ofBroad : Carries move id broad broadImage) :
    Carries move id (if type.width == 1 then narrow else broad)
      (if (type.moved move).width == 1 then narrowImage else broadImage) := by
  rw [VType.moved_width]
  split
  · exact ofNarrow
  · exact ofBroad

theorem carries_stackOp (op : StackOp) : Carries move id (stackOp op) (stackOp op) := by
  have pushes (types : List VType) :
      Carries move id (pushAll types) (pushAll (types.map (VType.moved move))) := carries_pushAll types
  cases op with
  | pop => exact carries_discard carries_popSingle
  | pop2 =>
    refine carries_pop.bind fun first => carries_byWidth ?_ ?_
    · exact carries_discard carries_popSingle
    · exact carries_pure ..
  | dup => exact carries_popSingle.bind fun first => pushes [first, first]
  | dupX1 =>
    exact carries_popSingle.bind fun first => carries_popSingle.bind fun second =>
      pushes [first, second, first]
  | dupX2 =>
    refine carries_popSingle.bind fun first => carries_pop.bind fun second => carries_byWidth ?_ ?_
    · exact carries_popSingle.bind fun third => pushes [first, third, second, first]
    · exact pushes [first, second, first]
  | dup2 =>
    refine carries_pop.bind fun first => carries_byWidth ?_ ?_
    · exact carries_popSingle.bind fun second => pushes [second, first, second, first]
    · exact pushes [first, first]
  | dup2X1 =>
    refine carries_pop.bind fun first => carries_popSingle.bind fun second => carries_byWidth ?_ ?_
    · exact carries_popSingle.bind fun third => pushes [second, first, third, second, first]
    · exact pushes [first, second, first]
  | dup2X2 =>
    refine carries_pop.bind fun first => carries_byWidth ?_ ?_
    · refine carries_popSingle.bind fun second => carries_pop.bind fun third => carries_byWidth ?_ ?_
      · exact carries_popSingle.bind fun fourth =>
          pushes [second, first, fourth, third, second, first]
      · exact pushes [second, first, third, second, first]
    · refine carries_pop.bind fun second => carries_byWidth ?_ ?_
      · exact carries_popSingle.bind fun third => pushes [first, third, second, first]
      · exact pushes [first, second, first]
  | swap =>
    exact carries_popSingle.bind fun first => carries_popSingle.bind fun second =>
      pushes [first, second]

theorem carries_pushElement (array : VType) :
    Carries move id (pushElement array) (pushElement (array.moved move)) := by
  match array with
  | .object type =>
    simp only [VType.moved, pushElement]
    split
    · exact carries_pushFixed fun _ => rfl
    · exact carries_fail ..
  | .null => exact carries_pushFixed fun _ => rfl
  | .top | .integer | .float | .long | .double | .uninitializedThis | .uninitialized _ =>
    exact carries_fail ..

theorem fixed_numeric (kind : NumericKind) : Fixed kind.type := by
  cases kind <;> exact fun _ => rfl

theorem fixed_integral (kind : IntegralKind) : Fixed kind.type := by
  cases kind <;> exact fun _ => rfl

theorem fixed_floating (kind : FloatingKind) : Fixed kind.type := by
  cases kind <;> exact fun _ => rfl

theorem fixed_conversion (conversion : Conversion) :
    Fixed conversion.types.1 ∧ Fixed conversion.types.2 := by
  cases conversion <;> exact ⟨fun _ => rfl, fun _ => rfl⟩

theorem fixed_element {kind : ElementKind} {type : VType} (primitive : kind.primitive? = some type) :
    Fixed type := by
  cases kind <;> cases primitive <;> exact fun _ => rfl

theorem fixed_slot {kind : SlotKind} {type : VType} (primitive : kind.primitive? = some type) :
    Fixed type := by
  cases kind <;> cases primitive <;> exact fun _ => rfl

theorem fixed_loadable (constant : Loadable) : Fixed constant.type := by
  cases constant with
  | dynamic _ type => exact fixed_ofFieldType type
  | _ => exact fun _ => rfl

theorem fixed_small (constant : SmallConstant) : Fixed constant.type := by
  cases constant <;> exact fun _ => rfl

theorem carries_plain (op : Plain) : Carries move id (plain op) (plain op) := by
  have integer : Fixed .integer := fun _ => rfl
  have long : Fixed .long := fun _ => rfl
  cases op with
  | nop => exact carries_pure ..
  | push constant => exact carries_pushFixed (fixed_small constant)
  | arrayLoad kind =>
    refine (carries_popExpecting integer).bind fun _ => carries_popArray.bind fun array => ?_
    split
    · rename_i primitive
      exact carries_pushFixed (fixed_element primitive)
    · exact carries_pushElement array
  | arrayStore kind =>
    let finish : FrameM Unit := do
      popExpecting .integer
      let _ ← popArray
    have rest : Carries move id finish finish :=
      (carries_popExpecting integer).bind fun _ => carries_discard carries_popArray
    simp only [plain]
    split
    · rename_i primitive
      exact (carries_popExpecting (fixed_element primitive)).bind fun _ => rest
    · exact carries_popReference.bind fun _ => rest
  | stack op => exact carries_stackOp op
  | arithmetic op kind =>
    exact (carries_popExpecting (fixed_numeric kind)).bind fun _ =>
      (carries_popExpecting (fixed_numeric kind)).bind fun _ => carries_pushFixed (fixed_numeric kind)
  | bitwise op kind =>
    exact (carries_popExpecting (fixed_integral kind)).bind fun _ =>
      (carries_popExpecting (fixed_integral kind)).bind fun _ =>
        carries_pushFixed (fixed_integral kind)
  | negate kind => exact carries_convert (fixed_numeric kind) (fixed_numeric kind)
  | shift op kind =>
    exact (carries_popExpecting integer).bind fun _ =>
      carries_convert (fixed_integral kind) (fixed_integral kind)
  | convert conversion =>
    exact carries_convert (fixed_conversion conversion).1 (fixed_conversion conversion).2
  | compareLongs => exact (carries_popExpecting long).bind fun _ => carries_convert long integer
  | compareFloats kind order =>
    exact (carries_popExpecting (fixed_floating kind)).bind fun _ =>
      carries_convert (fixed_floating kind) integer
  | arrayLength => exact carries_popArray.bind fun _ => carries_pushFixed integer
  | monitorEnter | monitorExit => exact carries_discard carries_popReference

theorem carries_pushLoadable (width : Nat) (constant : Loadable) :
    Carries move id (pushLoadable width constant) (pushLoadable width constant) := by
  unfold pushLoadable
  simp only
  split
  · exact carries_pushFixed (fixed_loadable constant)
  · exact carries_fail ..

theorem carries_forM {α : Type} {action : α → FrameM Unit}
    (each : ∀ value, Carries move id (action value) (action value)) (values : List α) :
    Carries move id (values.forM action) (values.forM action) := by
  induction values with
  | nil => exact carries_pure ..
  | cons value values ih => exact (each value).bind fun _ => ih

theorem carries_popArguments (parameters : List FieldType) :
    Carries move id (popArguments parameters) (popArguments parameters) :=
  carries_forM carries_popForField _

theorem carries_pushResult (result : Option FieldType) :
    Carries move id (pushResult result) (pushResult result) := by
  cases result with
  | none => exact carries_pure ..
  | some type => exact carries_pushFixed (fixed_ofFieldType type)

theorem carries_construct (injective : Function.Injective move) (thisClass : BinaryName)
    (method : MethodRef) :
    Carries move id (construct thisClass method) (construct thisClass method) := by
  have replaces (old new : VType) := carries_replaceAll injective old new
  have finish : Carries move id
      (if method.descriptor.result.isSome then fail .invalidType else pure PUnit.unit)
      (if method.descriptor.result.isSome then fail .invalidType else pure PUnit.unit) := by
    split
    · exact carries_fail ..
    · exact carries_pure ..
  refine carries_pop.bind fun type => ?_
  match type with
  | .uninitializedThis =>
    exact (replaces .uninitializedThis (VType.ofClass thisClass)).bind fun _ => finish
  | .uninitialized source =>
    exact (replaces (.uninitialized source) (.object method.owner)).bind fun _ => finish
  | .object _ | .null | .top | .integer | .float | .long | .double =>
    exact (carries_fail id ..).bind fun _ => finish

theorem carries_invoke (injective : Function.Injective move) (thisClass : BinaryName)
    (kind : InvokeKind) (method : MethodRef) :
    Carries move id (invoke thisClass kind method) (invoke thisClass kind method) := by
  refine (carries_popArguments _).bind fun _ => ?_
  split
  · exact carries_construct injective thisClass method
  · split
    · exact carries_popReference.bind fun _ => carries_pushResult _
    · exact carries_pushResult _

theorem carries_field (op : FieldOp) (ref : FieldRef) :
    Carries move id (field op ref) (field op ref) := by
  have pushes : Carries move id (push (VType.ofFieldType ref.type)) (push (VType.ofFieldType ref.type)) :=
    carries_pushFixed (fixed_ofFieldType ref.type)
  cases op with
  | getStatic => exact pushes
  | putStatic => exact carries_popForField ref.type
  | getField => exact carries_popReference.bind fun _ => pushes
  | putField => exact (carries_popForField ref.type).bind fun _ => carries_discard carries_popReference

/-- A new object is known by where its item has moved. -/
theorem carries_onClass (item : Nat) (op : ClassOp) (type : RefType) :
    Carries move id (onClass item op type) (onClass (move item) op type) := by
  cases op with
  | new =>
    simp only [onClass]
    split
    · exact carries_fail ..
    · exact carries_push (.uninitialized item)
  | newArray => exact carries_convert (fun _ => rfl) (fun _ => rfl)
  | checkCast => exact carries_popReference.bind fun _ => carries_pushFixed fun _ => rfl
  | instanceOf => exact carries_popReference.bind fun _ => carries_pushFixed fun _ => rfl

theorem carries_load (kind : SlotKind) (slot : UInt16) :
    Carries move id (load kind slot) (load kind slot) := by
  unfold load
  split
  · rename_i primitive
    exact (carries_expectLocal slot (fixed_slot primitive)).bind fun _ =>
      carries_pushFixed (fixed_slot primitive)
  · refine (carries_getLocal slot).bind fun type => ?_
    rw [VType.moved_isReference]
    split
    · exact carries_push type
    · exact carries_fail ..

theorem carries_store (kind : SlotKind) (slot : UInt16) :
    Carries move id (store kind slot) (store kind slot) := by
  unfold store
  split
  · rename_i primitive type found
    have sets : Carries move id (setLocal slot type) (setLocal slot (type.moved move)) :=
      carries_setLocal slot type
    rw [fixed_slot found move] at sets
    exact (carries_popExpecting (fixed_slot found)).bind fun _ => sets
  · exact carries_popReference.bind fun type => carries_setLocal slot type

/-- An instruction does to moved frames what it did before, wherever it has moved. -/
theorem carries_instruction (injective : Function.Injective move) (thisClass : BinaryName)
    (item : Nat) (step : SymInstruction) :
    Carries move id (instruction thisClass item step) (instruction thisClass (move item) step) := by
  cases step with
  | plain op => exact carries_plain op
  | pushByte | pushShort => exact carries_pushFixed fun _ => rfl
  | loadConstant constant => exact carries_pushLoadable 1 constant
  | loadWideConstant constant => exact carries_pushLoadable 2 constant
  | load kind slot => exact carries_load kind slot
  | store kind slot => exact carries_store kind slot
  | increment slot => exact carries_expectLocal slot fun _ => rfl
  | field op ref => exact carries_field op ref
  | invoke kind method => exact carries_invoke injective thisClass kind method
  | invokeDynamic site =>
    exact (carries_popArguments _).bind fun _ => carries_pushResult _
  | newPrimitiveArray => exact carries_convert (fun _ => rfl) (fun _ => rfl)
  | onClass op type => exact carries_onClass item op type
  | newMultiArray type dimensions =>
    exact (carries_forM (fun _ => carries_popExpecting fun _ => rfl) _).bind fun _ =>
      carries_pushFixed fun _ => rfl

theorem carries_test (test : Test) : Carries move id (FrameM.test test) (FrameM.test test) := by
  have integer : Fixed .integer := fun _ => rfl
  cases test with
  | zero => exact carries_popExpecting integer
  | ints => exact (carries_popExpecting integer).bind fun _ => carries_popExpecting integer
  | references => exact carries_popReference.bind fun _ => carries_discard carries_popReference
  | null => exact carries_discard carries_popReference

theorem carries_returnPrimitive {type : VType} (fixed : Fixed type) (result : Option FieldType) :
    Carries move id (returnPrimitive type result) (returnPrimitive type result) := by
  refine (carries_popExpecting fixed).bind fun _ => ?_
  split
  · exact carries_pure ..
  · exact carries_fail ..

theorem carries_ret (result : Option FieldType) (kind : ReturnKind) :
    Carries move id (ret result kind) (ret result kind) := by
  cases kind with
  | int | long | float | double => exact carries_returnPrimitive (fun _ => rfl) result
  | reference =>
    refine carries_popReference.bind fun _ => ?_
    split
    · exact carries_pure ..
    · exact carries_fail ..
  | void =>
    simp only [ret]
    split
    · exact carries_pure ..
    · exact carries_fail ..

theorem carries_branch {τ : Type} (result : Option FieldType) (jump : Branch τ) :
    Carries move id (branch result jump) (branch result jump) := by
  cases jump with
  | jumpIf test => exact carries_test test
  | goto => exact carries_pure ..
  | tableSwitch | lookupSwitch => exact carries_popExpecting fun _ => rfl
  | ret kind => exact carries_ret result kind
  | athrow =>
    refine carries_popReference.bind fun exception => ?_
    intro frame value after done
    cases done
    rfl

end FrameM

/-- What an item does to a frame moves with it. -/
theorem FlowGraph.after_moved {move : Nat → Nat} (injective : Function.Injective move)
    {method : MethodContext} {position : Nat} {before after : VFrame} {item : Item}
    (done : FlowGraph.after method position before item = .ok after) :
    FlowGraph.after method (move position) (before.moved move) item = .ok (after.moved move) := by
  cases item with
  | label | line =>
    cases done
    rfl
  | instruction step =>
    have ran := VFrame.execute_ok.mp done
    exact VFrame.execute_ok.mpr
      (FrameM.carries_instruction injective method.thisClass position step ran)
  | branch jump =>
    have ran := VFrame.executeBranch_ok.mp done
    exact VFrame.executeBranch_ok.mpr (FrameM.carries_branch method.descriptor.result jump ran)

namespace Hierarchy

variable {hierarchy : Hierarchy} {move : Nat → Nat}

theorem TypeBelow.moved {source target : VType} (below : hierarchy.TypeBelow source target) :
    hierarchy.TypeBelow (source.moved move) (target.moved move) := by
  cases below with
  | same => exact .same
  | null => exact .null
  | object below => exact .object below

theorem LocalBelow.moved {source target : VType} (below : hierarchy.LocalBelow source target) :
    hierarchy.LocalBelow (source.moved move) (target.moved move) :=
  below.imp VType.moved_eq_top.mpr TypeBelow.moved

theorem getD_moved (locals : List VType) (slot : Nat) :
    (locals.map (VType.moved move)).getD slot .top = (locals.getD slot .top).moved move := by
  simp only [List.getD_eq_getElem?_getD, List.getElem?_map]
  cases locals[slot]? <;> rfl

/-- Frames that have moved compare as they did before. -/
theorem FrameBelow.moved {lower upper : VFrame} (below : hierarchy.FrameBelow lower upper) :
    hierarchy.FrameBelow (lower.moved move) (upper.moved move) where
  stack := List.forall₂_map_left_iff.mpr (List.forall₂_map_right_iff.mpr
    (below.stack.imp fun _ _ each => each.moved))
  locals slot := by
    simp only [VFrame.moved, getD_moved]
    exact (below.locals slot).moved

end Hierarchy

namespace VFrame

variable {move : Nat → Nat}

/-- Nothing in the frame on entry has been created by an item. -/
theorem moved_initial (method : MethodContext) :
    (initial method).moved move = initial method := by
  have parameters (types : List FieldType) :
      (types.flatMap parameterLocals).map (VType.moved move) = types.flatMap parameterLocals := by
    rw [List.map_flatMap]
    congr 1
    funext type
    simp only [parameterLocals]
    split <;> simp
  simp only [initial, moved, List.map_append, parameters, List.map_nil]
  congr 2
  simp only [receiverLocals]
  split
  · rfl
  · split <;> rfl

end VFrame

end ClassWeave
