import ClassWeave.Hook.Spec
import ClassWeave.Proofs.Hook.Calling
import ClassWeave.Proofs.Typing.Locals

/-!
# The uses of an answer are well typed

Whatever the shape of a target, the items that use the interface's answer fit the frame they start
from: they return something that the target can return, or put the answer in the place of the object.
-/

namespace ClassWeave

open FrameM VFrame

/-- What one kind of result leaves on the stack can be returned as any other of the same kind. -/
theorem VFrame.executeBranch_ret {locals stack : List VType} {answer result : Option FieldType}
    (same : ReturnKind.of answer = ReturnKind.of result) :
    executeBranch ⟨locals, (answer.map VType.ofFieldType).toList ++ stack⟩ result
      (.ret (ReturnKind.of result) : Branch Label) = .ok ⟨locals, stack⟩ := by
  rcases result with _ | ((_ | _ | _ | _ | _ | _ | _ | _) | result) <;>
    rcases answer with _ | ((_ | _ | _ | _ | _ | _ | _ | _) | answer) <;>
    first | rfl | cases same

theorem VFrame.executeBranch_retReference {locals stack : List VType} {type : VType}
    {result : Option FieldType} (reference : type.isReference = true)
    (returns : Target.isReference result = true) :
    executeBranch ⟨locals, type :: stack⟩ result (.ret .reference : Branch Label) =
      .ok ⟨locals, stack⟩ := by
  have run : FrameM.branch result (.ret .reference : Branch Label) ⟨locals, type :: stack⟩ =
      .ok ((), ⟨locals, stack⟩) := by
    match result, returns with
    | some (.ref _), _ => simp [branch, FrameM.ret, popReference_run reference]
    | none, same => cases same
    | some (.base base), same => cases base <;> cases same
  rw [executeBranch, run]
  rfl

namespace HookSite

variable {method : MethodContext} {marks : Label → Option VFrame} {base : Nat}
  {locals stack : List VType} {answer : VType} {slot : UInt16} {type : VType}

/-- No value of two slots reaches into the slot of a reference. -/
theorem width_before (spaced : Spaced locals) {slot : Nat} (found : locals[slot]? = some type)
    (reference : type.isReference = true) (later : 0 < slot) :
    (locals.getD (slot - 1) .top).width = 1 := by
  rcases (locals.getD (slot - 1) .top).width_eq with narrow | wide
  · exact narrow
  · have half := spaced _ wide
    rw [Nat.sub_add_cancel later, List.getD_eq_getElem?_getD, found] at half
    cases half
    cases reference

theorem returnSelected_checks {ifTrue ifFalse : FieldRef} (same : ifTrue.type = ifFalse.type)
    (reference : Target.isReference (some ifTrue.type) = true)
    (returns : Target.isReference method.descriptor.result = true) {isFalse isPicked : Label}
    (falseMarked : marks isFalse = some ⟨locals, stack⟩)
    (pickedMarked : marks isPicked = some ⟨locals, VType.ofFieldType ifTrue.type :: stack⟩) :
    Checks method marks base (returnSelected ifTrue ifFalse isFalse isPicked)
      (some ⟨locals, .integer :: stack⟩) none := by
  have picked : (VType.ofFieldType ifTrue.type).isReference = true := by
    match ifTrue.type, reference with
    | .ref _, _ => rfl
    | .base base, same => cases base <;> cases same
  refine .jumpIf (by rfl) falseMarked ?_
  refine .instruction (execute_getStatic _) ?_
  refine .goto pickedMarked ?_
  refine .label falseMarked (fun _ none => nomatch none) ?_
  refine .instruction (execute_getStatic _) ?_
  rw [← same]
  refine .label pickedMarked (fun _ same => (Option.some.inj same).symm) ?_
  exact .ret (executeBranch_retReference picked returns) .nil

/-- Once a reference is stored, local 0 holds one if it did before. -/
theorem receiver_stored (slot : UInt16) (reference : answer.isReference = true)
    (receiver : ∃ type, locals[0]? = some type ∧ type.isReference = true) :
    ∃ type, (storeLocal locals slot.toNat answer)[0]? = some type ∧
      type.isReference = true := by
  rcases Nat.eq_zero_or_pos slot.toNat with first | later
  · exact ⟨answer, first ▸ storeLocal_self, reference⟩
  · obtain ⟨type, found, isReference⟩ := receiver
    exact ⟨type, storeLocal_before later found (VType.width_of_isReference isReference), isReference⟩

/-- A new reference object around the answer comes to lie on the receiver. -/
theorem cacheSetup_checks (base : Nat) (stack : List VType) (slot : UInt16) (field : FieldRef)
    (referenceClass : BinaryName) (reference : answer.isReference = true)
    (receiver : ∃ type, locals[0]? = some type ∧ type.isReference = true) :
    ∃ (kept rest : List VType) (this : VType), this.isReference = true ∧
      (∃ type, kept[slot.toNat]? = some type ∧ type.isReference = true) ∧
      ∀ method marks, Checks method marks base ((returnCached field referenceClass slot).take 6)
        (some ⟨locals, answer :: stack⟩)
        (some ⟨kept, VType.ofClass referenceClass :: this :: rest⟩) := by
  obtain ⟨this, found, isReference⟩ := receiver_stored slot reference receiver
  have fit : List.Forall₂ Takes
      (MethodRef.ofClass referenceClass .init [.object .object] none).descriptor.parameters.reverse
      [answer] := .cons (takes_reference _ reference) .nil
  let fresh := replaced (.uninitialized (base + 1 + 1)) (VType.ofClass referenceClass)
  have made : fresh (.uninitialized (base + 1 + 1)) = VType.ofClass referenceClass := if_pos rfl
  refine ⟨(storeLocal locals slot.toNat answer).map fresh, stack.map fresh, fresh this,
    replaced_reference rfl isReference,
    ⟨_, replaced_getElem? storeLocal_self, replaced_reference rfl reference⟩, fun method marks => ?_⟩
  refine .instruction (execute_storeReference reference) ?_
  refine .instruction (execute_loadReference found isReference) ?_
  refine .instruction (execute_new _) ?_
  refine .instruction (execute_dup rfl) ?_
  refine .instruction (execute_loadReference storeLocal_self reference) ?_
  refine .instruction (execute_construct rfl rfl fit) ?_
  rw [← made]
  exact .nil

theorem returnCached_checks {field : FieldRef} {fieldType : RefType}
    (isType : field.type = .ref fieldType) (referenceClass : BinaryName)
    (reference : answer.isReference = true)
    (receiver : ∃ type, locals[0]? = some type ∧ type.isReference = true)
    (returns : Target.isReference method.descriptor.result = true) :
    Checks method marks base (returnCached field referenceClass slot)
      (some ⟨locals, answer :: stack⟩) none := by
  obtain ⟨kept, rest, this, thisReference, ⟨type, found, typeReference⟩, setup⟩ :=
    cacheSetup_checks base stack slot field referenceClass reference receiver
  rw [← List.take_append_drop 6 (returnCached _ _ _)]
  refine (setup method marks).append ?_
  refine .instruction (execute_putField isType rfl thisReference) ?_
  refine .instruction (execute_loadReference found typeReference) ?_
  exact .ret (executeBranch_retReference typeReference returns) .nil

/-- No reference fits a field of a primitive type. -/
theorem putField_fails {field : FieldRef} {type : BaseType} (isType : field.type = .base type)
    (referenceClass : BinaryName) (this : VType) (after : VFrame) :
    execute ⟨locals, VType.ofClass referenceClass :: this :: stack⟩ method.thisClass base
      (.field .putField field) ≠ .ok after := by
  obtain ⟨owner, name, _⟩ := field
  subst isType
  cases type <;> exact fun done => nomatch done

/-- What the loop that joins chunks relies on: the array, the length, the text so far and the
position. -/
structure JoinsIn (locals : List VType) (slot : UInt16) (array : RefType) : Prop where
  chunks : locals[slot.toNat]? = some (.object array)
  length : locals[(slot + 1).toNat]? = some .integer
  builder : ∃ type, locals[(slot + 2).toNat]? = some type ∧ type.isReference = true
  index : locals[(slot + 3).toNat]? = some .integer

/-- What comes before the loop sets up its locals. -/
theorem joinSetup_checks {array : RefType} (isArray : array.isArray = true)
    (scratch : slot.toNat + 3 ≤ 65535) (chunkOwner : BinaryName) (chunkMethod : UnqualifiedName)
    (body condition : Label) :
    ∃ joined rest : List VType, JoinsIn joined slot array ∧ ∀ method marks, Checks method marks base
      ((returnJoined chunkOwner chunkMethod slot body condition).take 10)
      (some ⟨locals, .object array :: stack⟩) (some ⟨joined, rest⟩) := by
  have one : (slot + 1).toNat = slot.toNat + 1 := by simp [UInt16.toNat_add]; omega
  have two : (slot + 2).toNat = slot.toNat + 2 := by simp [UInt16.toNat_add]; omega
  have three : (slot + 3).toNat = slot.toNat + 3 := by simp [UInt16.toNat_add]; omega
  let stored := storeLocal locals slot.toNat (.object array)
  let measured := storeLocal stored (slot + 1).toNat .integer
  let fresh := replaced (.uninitialized (base + 1 + 1 + 1 + 1)) (VType.ofClass .stringBuilder)
  let built := storeLocal (measured.map fresh) (slot + 2).toNat
    (fresh (.uninitialized (base + 1 + 1 + 1 + 1)))
  have builderReference : (fresh (.uninitialized (base + 1 + 1 + 1 + 1))).isReference = true :=
    replaced_reference rfl rfl
  have builderSingle := VType.width_of_isReference builderReference
  have kept {index : Nat} {type : VType} (before : index < slot.toNat + 2)
      (found : measured[index]? = some type) (single : type.width = 1)
      (old : fresh type = type) :
      (storeLocal built (slot + 3).toNat .integer)[index]? = some type := by
    refine storeLocal_before (by omega) (storeLocal_before (by omega) ?_ single) single
    rw [replaced_getElem? found]
    exact congrArg some old
  refine ⟨storeLocal built (slot + 3).toNat .integer, stack.map fresh, ⟨?_, ?_, ?_, ?_⟩, fun method marks => ?_⟩
  · exact kept (by omega) (storeLocal_before (by omega) storeLocal_self rfl) rfl rfl
  · exact kept (by omega) storeLocal_self rfl rfl
  · exact ⟨_, storeLocal_before (by omega) storeLocal_self builderSingle, builderReference⟩
  · exact storeLocal_self
  · refine .instruction (execute_storeReference rfl) ?_
    refine .instruction (execute_loadReference storeLocal_self rfl) ?_
    refine .instruction (execute_arrayLength isArray) ?_
    refine .instruction (execute_storePrimitive rfl) ?_
    refine .instruction (execute_new _) ?_
    refine .instruction (execute_dup rfl) ?_
    have fit : List.Forall₂ Takes
      (MethodRef.ofClass .stringBuilder .init [] none).descriptor.parameters.reverse [] := .nil
    refine .instruction (execute_construct rfl rfl fit) ?_
    refine .instruction (execute_storeReference builderReference) ?_
    refine .instruction (execute_push _) ?_
    exact .instruction (execute_storePrimitive rfl) .nil

/-- The loop leaves the locals and the rest of the stack as they are, from one round to the next. -/
theorem joinLoop_checks {array element : RefType} (isElement : array.elementType? = some (.ref element))
    (joins : JoinsIn locals slot array) (chunkOwner : BinaryName) (chunkMethod : UnqualifiedName)
    {body condition : Label} (bodyMarked : marks body = some ⟨locals, stack⟩)
    (conditionMarked : marks condition = some ⟨locals, stack⟩)
    (returns : Target.isReference method.descriptor.result = true) :
    Checks method marks base ((returnJoined chunkOwner chunkMethod slot body condition).drop 10)
      (some ⟨locals, stack⟩) none := by
  obtain ⟨builder, builderFound, builderReference⟩ := joins.builder
  have fit : List.Forall₂ Takes
      (MethodRef.ofClass .stringBuilder .append [.object .string]
        (some (.object .stringBuilder))).descriptor.parameters.reverse
      [VType.ofFieldType (.object .string)] := .cons (takes_own _) .nil
  refine .goto conditionMarked ?_
  refine .label bodyMarked (fun _ none => nomatch none) ?_
  refine .instruction (execute_loadReference builderFound builderReference) ?_
  refine .instruction (execute_loadReference joins.chunks rfl) ?_
  refine .instruction (execute_loadPrimitive rfl joins.index) ?_
  refine .instruction (execute_arrayLoad isElement) ?_
  refine .instruction (execute_invokeGetter rfl rfl) ?_
  refine .instruction (execute_invokeVirtual fit builderReference) ?_
  refine .instruction (execute_pop rfl) ?_
  refine .instruction (execute_increment joins.index) ?_
  refine .label conditionMarked (fun _ same => (Option.some.inj same).symm) ?_
  refine .instruction (execute_loadPrimitive rfl joins.index) ?_
  refine .instruction (execute_loadPrimitive rfl joins.length) ?_
  refine .jumpIf (by rfl) bodyMarked ?_
  refine .instruction (execute_loadReference builderFound builderReference) ?_
  refine .instruction (execute_invokeGetter rfl builderReference) ?_
  exact .ret (executeBranch_retReference rfl returns) .nil

theorem returnJoined_checks (base : Nat) {array element : RefType}
    (isElement : array.elementType? = some (.ref element)) (scratch : slot.toNat + 3 ≤ 65535)
    (chunkOwner : BinaryName) (chunkMethod : UnqualifiedName) (body condition : Label)
    (returns : Target.isReference method.descriptor.result = true) :
    ∃ frame : VFrame, ∀ marks : Label → Option VFrame, marks body = some frame →
      marks condition = some frame →
        Checks method marks base (returnJoined chunkOwner chunkMethod slot body condition)
          (some ⟨locals, .object array :: stack⟩) none := by
  have isArray : array.isArray = true := by
    cases array with
    | object => cases isElement
    | array => rfl
  obtain ⟨joined, rest, joins, setup⟩ := joinSetup_checks isArray scratch chunkOwner chunkMethod
    body condition
  refine ⟨⟨joined, rest⟩, fun marks bodyMarked conditionMarked => ?_⟩
  rw [← List.take_append_drop 10 (returnJoined _ _ _ _ _)]
  exact (setup method marks).append
    (joinLoop_checks isElement joins chunkOwner chunkMethod bodyMarked conditionMarked returns)

end HookSite

end ClassWeave
