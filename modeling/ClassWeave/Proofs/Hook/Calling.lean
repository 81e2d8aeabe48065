import ClassWeave.Hook.Site
import ClassWeave.Proofs.Typing.Checking
import ClassWeave.Proofs.Typing.Steps

/-!
# The interface call is well typed

How the stack changes while a hook tests an object and calls the interface: values of any width end
up in the array in the place of their parameters, and an answer of the interface's own result type
is left behind.
-/

namespace ClassWeave

open FrameM VFrame

namespace HookCall

/-- The two fields of a hook hold a class and a method. -/
structure FieldsTyped (fields : HookFields) : Prop where
  classField : fields.classField.type = .object .classObject
  methodField : fields.methodField.type = .object .reflectMethod

variable {method : MethodContext} {marks : Label → Option VFrame} {base : Nat}
  {locals stack : List VType}

/-- The array that arguments are packed into. -/
def packed : VType := .object (.arrayOf (.object .object))

theorem load_int_execute {thisClass : BinaryName} (value : Nat) :
    execute ⟨locals, stack⟩ thisClass base (loadInt value) =
      .ok ⟨locals, .integer :: stack⟩ := by
  unfold loadInt
  split
  iterate 6 rfl
  split
  · rfl
  · split <;> rfl

theorem isWide_width (parameter : FieldType) :
    (VType.ofFieldType parameter).width = if (ValueMarshal.of parameter).isWide then 2 else 1 := by
  match parameter with
  | .ref _ => rfl
  | .base type => cases type <;> rfl

/-- The guard takes the object off the stack, and leaves the rest as it was, whatever the answer. -/
theorem guard_checks {call : HookCall} (typed : FieldsTyped call.fields) {object : VType}
    (reference : object.isReference = true) {skip : Label}
    (marked : marks skip = some ⟨locals, stack⟩) :
    Checks method marks base (call.guard skip) (some ⟨locals, object :: stack⟩)
      (some ⟨locals, stack⟩) := by
  refine .instruction (execute_getStatic _) ?_
  rw [typed.classField]
  refine .instruction (execute_swap rfl (VType.width_of_isReference reference)) ?_
  have fit : List.Forall₂ Takes isInstanceMethod.descriptor.parameters.reverse [object] :=
    .cons (takes_reference _ reference) .nil
  refine .instruction (execute_invokeVirtual fit rfl) ?_
  refine .jumpIf ?_ marked .nil
  rfl

/-- A value under the array comes to lie on two copies of it. -/
theorem tuck_checks (parameter : FieldType) :
    let dup : SymInstruction :=
      .plain (.stack (if (ValueMarshal.of parameter).isWide then .dupX2 else .dupX1))
    Checks method marks base ([dup, dup, .plain (.stack .pop)].map Item.instruction)
      (some ⟨locals, packed :: VType.ofFieldType parameter :: stack⟩)
      (some ⟨locals, VType.ofFieldType parameter :: packed :: packed :: stack⟩) := by
  have width := isWide_width parameter
  generalize VType.ofFieldType parameter = type at width ⊢
  split at width
  · rename_i wide
    simp only [wide, if_true]
    exact .instruction (execute_dupX2_wide rfl width)
      (.instruction (execute_dupX2_wide rfl width) (.instruction (execute_pop rfl) .nil))
  · rename_i narrow
    simp only [narrow]
    exact .instruction (execute_dupX1 rfl width)
      (.instruction (execute_dupX1 rfl width) (.instruction (execute_pop rfl) .nil))

/-- A value on top of the stack is wrapped if it is a primitive. -/
theorem boxing_checks (parameter : FieldType) : ∃ boxed : VType, boxed.isReference = true ∧
    ∀ {method : MethodContext} {marks : Label → Option VFrame} {base : Nat}
      {locals stack : List VType}, Checks method marks base
        ((ValueMarshal.of parameter).boxing?.toList.map Item.instruction)
        (some ⟨locals, VType.ofFieldType parameter :: stack⟩) (some ⟨locals, boxed :: stack⟩) := by
  cases parameter with
  | ref type => exact ⟨.object type, rfl, .nil⟩
  | base type =>
    have fit : List.Forall₂ Takes
        (MethodRef.ofClass type.boxClass .valueOf [.base type]
          (some (.object type.boxClass))).descriptor.parameters.reverse
        [VType.ofFieldType (.base type)] := .cons (takes_own _) .nil
    exact ⟨VType.ofClass type.boxClass, rfl, .instruction (execute_invokeStatic fit) .nil⟩

/-- A value goes into the array on top of it. -/
theorem packArgument_checks (parameter : FieldType) (index : Nat) :
    Checks method marks base
      ((packArgument index (ValueMarshal.of parameter)).map Item.instruction)
      (some ⟨locals, packed :: VType.ofFieldType parameter :: stack⟩)
      (some ⟨locals, packed :: stack⟩) := by
  obtain ⟨boxed, reference, boxing⟩ := boxing_checks parameter
  rw [packArgument, List.map_append, List.map_append]
  refine ((tuck_checks parameter).append boxing).append ?_
  exact .instruction (load_int_execute index)
    (.instruction (execute_swap rfl (VType.width_of_isReference reference))
      (.instruction (execute_arrayStore rfl reference) .nil))

/-- All arguments, the last one first, go into an array in their place. -/
theorem packArguments_checks (parameters : List FieldType) :
    Checks method marks base
      ((packArguments (parameters.map ValueMarshal.of)).map Item.instruction)
      (some ⟨locals, parameters.reverse.map VType.ofFieldType ++ stack⟩)
      (some ⟨locals, packed :: stack⟩) := by
  have packing (pairs : List (FieldType × Nat)) : ∀ base, Checks method marks base
      ((pairs.flatMap fun pair => packArgument pair.2 (ValueMarshal.of pair.1)).map Item.instruction)
      (some ⟨locals, packed :: pairs.map (fun pair => VType.ofFieldType pair.1) ++ stack⟩)
      (some ⟨locals, packed :: stack⟩) := by
    induction pairs with
    | nil => exact fun _ => .nil
    | cons pair pairs ih =>
      intro base
      rw [List.flatMap_cons, List.map_append]
      exact (packArgument_checks pair.1 pair.2).append (ih _)
  have items : (parameters.map ValueMarshal.of).zipIdx.reverse.flatMap
      (fun pair => packArgument pair.2 pair.1) =
        parameters.zipIdx.reverse.flatMap fun pair =>
          packArgument pair.2 (ValueMarshal.of pair.1) := by
    rw [List.zipIdx_map, ← List.map_reverse, List.flatMap_map]
    rfl
  have values : parameters.zipIdx.reverse.map (fun pair => VType.ofFieldType pair.1) =
      parameters.reverse.map VType.ofFieldType := by
    change List.map (VType.ofFieldType ∘ Prod.fst) _ = _
    rw [← List.map_map, List.map_reverse, List.zipIdx_map_fst]
  rw [packArguments, List.map_append, items, ← values]
  exact .append (.instruction (load_int_execute _) (.instruction (execute_newArray _) .nil))
    (packing _ _)

/-- What the reflective call answers with becomes a value of the interface's result type. -/
theorem unwrapResult_checks (fields : HookFields) (interface : InterfaceMethod) :
    Checks method marks base ((HookCall.of fields interface).unwrapResult.map Item.instruction)
      (some ⟨locals, VType.ofClass .object :: stack⟩)
      (some ⟨locals, (interface.descriptor.result.map VType.ofFieldType).toList ++ stack⟩) := by
  rw [unwrapResult, HookCall.of]
  cases interface.descriptor.result with
  | none => exact .instruction (execute_pop rfl) .nil
  | some result =>
    cases result with
    | base type =>
      exact .instruction (execute_checkCast rfl _)
        (.instruction (execute_invokeGetter rfl rfl) .nil)
    | ref type =>
      by_cases root : type = .object .object
      · subst root
        exact .nil
      · have items : (ValueMarshal.of (.ref type)).unboxing = [.onClass .checkCast type] := if_neg root
        simp only [Option.map_some, items]
        exact .instruction (execute_checkCast rfl _) .nil

/-- The call takes the arguments and the object off the stack, and leaves the answer. -/
theorem items_checks {fields : HookFields} (typed : FieldsTyped fields)
    (interface : InterfaceMethod) {object : VType} (reference : object.isReference = true) :
    Checks method marks base (HookCall.of fields interface).items
      (some ⟨locals, interface.descriptor.parameters.reverse.map VType.ofFieldType
        ++ object :: stack⟩)
      (some ⟨locals, (interface.descriptor.result.map VType.ofFieldType).toList ++ stack⟩) := by
  have single := VType.width_of_isReference reference
  have fit : List.Forall₂ Takes invokeMethod.descriptor.parameters.reverse [packed, object] :=
    .cons (takes_own _) (.cons (takes_reference _ reference) .nil)
  rw [HookCall.items, instructions, List.map_append, List.map_append]
  refine ((packArguments_checks _).append ?_).append (unwrapResult_checks fields interface)
  refine .instruction (execute_getStatic _) ?_
  rw [HookCall.of, typed.methodField]
  exact .instruction (execute_dupX2 rfl rfl single) (.instruction (execute_pop rfl)
    (.instruction (execute_invokeVirtual fit rfl) .nil))

end HookCall

end ClassWeave
