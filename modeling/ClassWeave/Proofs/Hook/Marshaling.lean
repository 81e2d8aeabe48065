import ClassWeave.Proofs.Execution.Reflection

/-!
# Arguments arrive

The values of a call end up in an array, each in the place of its parameter, and what the method answers
ends up on the stack: whatever the widths of the values are, none is taken apart or left behind.
-/

namespace ClassWeave

open Reflection

/-- The element stands for the value: it is the value itself, or a wrapper of a primitive. -/
def Delivers (heap : Heap) (type : FieldType) (value : Value Nat) (element : Option Nat) : Prop :=
  match type with
  | .ref _ => value = .reference element
  | .base type => ∃ place, element = some place ∧ heap[place]? = some (.box type value)

/-- Everything but one object stays as it is. -/
def Heap.Keeps (array : Nat) (before after : Heap) : Prop :=
  ∀ place object, place ≠ array → before[place]? = some object → after[place]? = some object

namespace Heap.Keeps

variable {array : Nat} {before after last : Heap}

theorem refl (array : Nat) (heap : Heap) : Heap.Keeps array heap heap := fun _ _ _ found => found

theorem trans (first : Heap.Keeps array before after) (second : Heap.Keeps array after last) :
    Heap.Keeps array before last :=
  fun place object other found => second place object other (first place object other found)

theorem append (array : Nat) (heap added : Heap) : Heap.Keeps array heap (heap ++ added) := by
  intro place other _ found
  rwa [List.getElem?_append_left (List.getElem?_eq_some_iff.mp found).1]

theorem set (array : Nat) (heap : Heap) (object : HeapObject) :
    Heap.Keeps array heap (heap.set array object) := by
  intro place other different found
  rwa [List.getElem?_set_ne different.symm]

theorem delivers (keeps : Heap.Keeps array before after) {elements : List (Option Nat)}
    (isArray : before[array]? = some (.array elements)) {type : FieldType} {value : Value Nat}
    {element : Option Nat} (delivered : Delivers before type value element) :
    Delivers after type value element := by
  cases type with
  | ref type => exact delivered
  | base type =>
    obtain ⟨place, isPlace, boxed⟩ := delivered
    refine ⟨place, isPlace, keeps place _ ?_ boxed⟩
    rintro rfl
    rw [boxed] at isArray
    cases isArray

end Heap.Keeps

namespace HookCall

variable {runtime : Reflection} {stack rest : List (Value Nat)} {heap : Heap}

theorem toInt_ofNat {number : Nat} (short : number < 2 ^ 31) : (Int32.ofNat number).toInt = number :=
  Int32.toInt_ofNat_of_lt short

theorem nonneg_ofNat {number : Nat} (short : number < 2 ^ 31) : 0 ≤ Int32.ofNat number := by
  rw [Int32.le_iff_toInt_le, toInt_ofNat short]
  exact Int.natCast_nonneg number

theorem toNat_ofNat {number : Nat} (short : number < 2 ^ 31) :
    (Int32.ofNat number).toNatClampNeg = number := by
  rw [Int32.toNatClampNeg, toInt_ofNat short]
  rfl

/-- The instruction for a number stands for the number itself, whatever its size. -/
theorem loadInt_cases {number : Nat} (short : number < 2 ^ 31) :
    (∃ constant : SmallConstant, loadInt number = .plain (.push constant) ∧
      constant.value = (.int (Int32.ofNat number) : Value Nat)) ∨
    (∃ value : Int8, loadInt number = .pushByte value ∧ value.toInt32 = Int32.ofNat number) ∨
    (∃ value : Int16, loadInt number = .pushShort value ∧ value.toInt32 = Int32.ofNat number) ∨
    loadInt number = .loadConstant (.int (Int32.ofNat number)) := by
  unfold loadInt
  split
  iterate 6 exact .inl ⟨_, rfl, rfl⟩
  split
  · rename_i tiny
    have extended : (Int8.ofNat number).toInt32 = Int32.ofNat number := by
      apply Int32.toInt_inj.mp
      rw [Int8.toInt_toInt32, toInt_ofNat short, Int8.toInt_ofNat_of_lt (by omega)]
    exact .inr (.inl ⟨_, rfl, extended⟩)
  · split
    · rename_i small
      have extended : (Int16.ofNat number).toInt32 = Int32.ofNat number := by
        apply Int32.toInt_inj.mp
        rw [Int16.toInt_toInt32, toInt_ofNat short, Int16.toInt_ofNat_of_lt (by omega)]
      exact .inr (.inr (.inl ⟨_, rfl, extended⟩))
    · exact .inr (.inr (.inr rfl))

/-- Whatever its size, the number itself is pushed. -/
theorem step_loadInt {number : Nat} (short : number < 2 ^ 31) :
    runtime.step ⟨stack, heap⟩ (loadInt number) = some ⟨.int (Int32.ofNat number) :: stack, heap⟩ := by
  rcases loadInt_cases short with ⟨_, same, value⟩ | ⟨_, same, value⟩ | ⟨_, same, value⟩ | same <;>
    rw [same]
  iterate 3
    rw [← value]
    rfl
  rfl

/-- A value of either width comes to lie on two copies of the array that was on top of it. -/
theorem run_tuck {type : FieldType} {value : Value Nat} (typed : value.hasType type = true)
    (array : Option Nat) :
    let dup : SymInstruction :=
      .plain (.stack (if (ValueMarshal.of type).isWide then .dupX2 else .dupX1))
    runtime.run ⟨.reference array :: value :: rest, heap⟩ [dup, dup, .plain (.stack .pop)] =
      some ⟨value :: .reference array :: .reference array :: rest, heap⟩ := by
  have width := Value.isWide_of_hasType typed
  cases wide : (ValueMarshal.of type).isWide with
  | false =>
    rw [wide] at width
    simp only [Bool.false_eq_true, if_false]
    rw [run_step (step_stack (StackOp.rearrange_dupX1 rfl width)),
      run_step (step_stack (StackOp.rearrange_dupX1 rfl width)),
      run_step (step_stack (StackOp.rearrange_pop rfl))]
    rfl
  | true =>
    rw [wide] at width
    simp only [if_true]
    rw [run_step (step_stack (StackOp.rearrange_dupX2_wide rfl width)),
      run_step (step_stack (StackOp.rearrange_dupX2_wide rfl width)),
      run_step (step_stack (StackOp.rearrange_pop rfl))]
    rfl

/-- A primitive is replaced by its wrapper, and a reference stays. -/
theorem run_boxing {type : FieldType} {value : Value Nat} (typed : value.hasType type = true) :
    ∃ element added, runtime.run ⟨value :: rest, heap⟩ (ValueMarshal.of type).boxing?.toList =
        some ⟨.reference element :: rest, heap ++ added⟩ ∧
      Delivers (heap ++ added) type value element := by
  cases type with
  | ref type =>
    cases value with
    | reference object => exact ⟨object, [], by rw [List.append_nil]; rfl, rfl⟩
    | _ => cases typed
  | base type =>
    have wrapped := (@step_boxing runtime ⟨value :: rest, heap⟩ type).trans (if_pos typed)
    exact ⟨some heap.length, [.box type value], run_step wrapped, heap.length, rfl, by simp⟩

theorem run_store {index array : Nat} {element : Option Nat} {elements : List (Option Nat)}
    (short : index < 2 ^ 31) (isArray : heap[array]? = some (.array elements))
    (inside : index < elements.length) :
    runtime.run ⟨.reference element :: .reference (some array) :: rest, heap⟩
        [loadInt index, .plain (.stack .swap), .plain (.arrayStore .reference)] =
      some ⟨rest, heap.set array (.array (elements.set index element))⟩ := by
  rw [run_step (step_loadInt short), run_step (step_stack (StackOp.rearrange_swap rfl rfl)), run_cons]
  simp only [step, CallState.storeElement, isArray, nonneg_ofNat short, toNat_ofNat short, inside,
    and_self, if_true]
  rfl

/-- An array that is being filled, and everything else on the heap. -/
structure Filled (array : Nat) (before after : Heap) (given elements : List (Option Nat)) : Prop where
  isArray : after[array]? = some (.array elements)
  length : elements.length = given.length
  keeps : Heap.Keeps array before after

/-- The value below the array goes into the array, at the index of its parameter. -/
theorem run_packArgument {type : FieldType} {value : Value Nat} {index array : Nat}
    {given : List (Option Nat)} (typed : value.hasType type = true) (short : index < 2 ^ 31)
    (isArray : heap[array]? = some (.array given)) (inside : index < given.length) :
    ∃ element after,
      runtime.run ⟨.reference (some array) :: value :: rest, heap⟩
        (packArgument index (ValueMarshal.of type)) = some ⟨.reference (some array) :: rest, after⟩ ∧
      Filled array heap after given (given.set index element) ∧ Delivers after type value element := by
  obtain ⟨element, added, boxing, delivered⟩ : ∃ element added,
      runtime.run ⟨value :: .reference (some array) :: .reference (some array) :: rest, heap⟩
        (ValueMarshal.of type).boxing?.toList = some ⟨.reference element ::
          .reference (some array) :: .reference (some array) :: rest, heap ++ added⟩ ∧
      Delivers (heap ++ added) type value element := run_boxing typed
  have place := (List.getElem?_eq_some_iff.mp isArray).1
  have stillArray : (heap ++ added)[array]? = some (.array given) := by
    rwa [List.getElem?_append_left place]
  refine ⟨element, (heap ++ added).set array (.array (given.set index element)), ?_,
    ⟨?_, List.length_set, ?_⟩, ?_⟩
  · rw [packArgument, run_append, run_append, run_tuck typed, Option.bind_some, boxing,
      Option.bind_some, run_store short stillArray inside]
  · exact List.getElem?_set_self (by rw [List.length_append]; omega)
  · exact (Heap.Keeps.append array heap added).trans (.set array _ _)
  · exact (Heap.Keeps.set array _ _).delivers stillArray delivered

/-- A value on its way into the array. -/
structure Argument where
  type : FieldType
  value : Value Nat
  index : Nat

/-- Values go into the array one after the other, each at an index of its own. -/
theorem run_packAll {array : Nat} {arguments : List Argument} {given : List (Option Nat)}
    (typed : ∀ argument ∈ arguments, argument.value.hasType argument.type = true)
    (inside : ∀ argument ∈ arguments, argument.index < given.length)
    (apart : (arguments.map Argument.index).Nodup) (short : given.length < 2 ^ 31)
    (isArray : heap[array]? = some (.array given)) :
    ∃ elements after,
      runtime.run ⟨.reference (some array) :: (arguments.map Argument.value ++ rest), heap⟩
        (arguments.flatMap fun argument => packArgument argument.index (.of argument.type)) =
          some ⟨.reference (some array) :: rest, after⟩ ∧
      Filled array heap after given elements ∧
      (∀ argument ∈ arguments, ∃ element, elements[argument.index]? = some element ∧
        Delivers after argument.type argument.value element) ∧
      ∀ index, index ∉ arguments.map Argument.index → elements[index]? = given[index]? := by
  induction arguments generalizing heap given with
  | nil => exact ⟨given, heap, rfl, ⟨isArray, rfl, .refl array heap⟩, nofun, fun _ _ => rfl⟩
  | cons argument arguments ih =>
    obtain ⟨typedFirst, typed⟩ := List.forall_mem_cons.mp typed
    obtain ⟨insideFirst, inside⟩ := List.forall_mem_cons.mp inside
    obtain ⟨new, apart⟩ := List.nodup_cons.mp apart
    obtain ⟨element, middle, packs, filled, delivered⟩ : ∃ element after,
        runtime.run ⟨.reference (some array) :: argument.value ::
            (arguments.map Argument.value ++ rest), heap⟩
          (packArgument argument.index (.of argument.type)) =
            some ⟨.reference (some array) :: (arguments.map Argument.value ++ rest), after⟩ ∧
        Filled array heap after given (given.set argument.index element) ∧
        Delivers after argument.type argument.value element :=
      run_packArgument typedFirst (by omega) isArray insideFirst
    rw [← filled.length] at inside short
    obtain ⟨elements, after, runs, filledAll, others, untouched⟩ :=
      ih typed inside apart short filled.isArray
    refine ⟨elements, after, ?_, ⟨filledAll.isArray, filledAll.length.trans filled.length,
      filled.keeps.trans filledAll.keeps⟩, List.forall_mem_cons.mpr ⟨⟨element, ?_, ?_⟩, others⟩, ?_⟩
    · rw [List.flatMap_cons, run_append, List.map_cons, List.cons_append, packs]
      exact runs
    · rw [untouched _ new, List.getElem?_set_self insideFirst]
    · exact filledAll.keeps.delivers filled.isArray delivered
    · intro index other
      obtain ⟨different, other⟩ := not_or.mp (mt List.mem_cons.mpr other)
      rw [untouched index other, List.getElem?_set_ne (Ne.symm different)]

/-- The values with their parameters. -/
def arguments (parameters : List FieldType) (values : List (Value Nat)) : List Argument :=
  (parameters.zip values).zipIdx.map fun ((type, value), index) => ⟨type, value, index⟩

theorem mem_arguments {parameters : List FieldType} {values : List (Value Nat)}
    {argument : Argument} : argument ∈ arguments parameters values ↔
      parameters[argument.index]? = some argument.type ∧
        values[argument.index]? = some argument.value := by
  unfold arguments
  rw [List.mem_map]
  constructor
  · rintro ⟨⟨⟨type, value⟩, index⟩, member, rfl⟩
    exact List.getElem?_zip_eq_some.mp (List.mk_mem_zipIdx_iff_getElem?.mp member)
  · intro found
    exact ⟨((argument.type, argument.value), argument.index),
      List.mk_mem_zipIdx_iff_getElem?.mpr (List.getElem?_zip_eq_some.mpr found), rfl⟩

section

variable {parameters : List FieldType} {values : List (Value Nat)}
  (typed : Value.HaveTypes parameters values)

include typed

theorem arguments_value : (arguments parameters values).map Argument.value = values := by
  have same : (arguments parameters values).map Argument.value =
      ((parameters.zip values).zipIdx.map Prod.fst).map Prod.snd := by
    rw [arguments, List.map_map, List.map_map]
    rfl
  rw [same, List.zipIdx_map_fst, List.map_snd_zip (Nat.le_of_eq typed.length_eq.symm)]

theorem arguments_index :
    (arguments parameters values).map Argument.index = List.range parameters.length := by
  have same : (arguments parameters values).map Argument.index =
      (parameters.zip values).zipIdx.map Prod.snd := by
    rw [arguments, List.map_map]
    rfl
  rw [same, List.zipIdx_map_snd, List.length_zip, ← typed.length_eq, Nat.min_self,
    List.range_eq_range']

theorem arguments_packed : (parameters.map ValueMarshal.of).zipIdx.reverse.flatMap
    (fun (argument, index) => packArgument index argument) =
      (arguments parameters values).reverse.flatMap fun argument =>
        packArgument argument.index (.of argument.type) := by
  have same : (parameters.map ValueMarshal.of).zipIdx =
      (arguments parameters values).map fun argument => (.of argument.type, argument.index) := by
    rw [← List.map_fst_zip (Nat.le_of_eq typed.length_eq), List.map_map, List.zipIdx_map,
      List.map_fst_zip (Nat.le_of_eq typed.length_eq), arguments, List.map_map]
    rfl
  rw [same, ← List.map_reverse, List.flatMap_map]

end

/-- Each value is in the array in the place of its parameter. -/
def AllDelivered (heap : Heap) (array : Nat) (parameters : List FieldType)
    (values : List (Value Nat)) : Prop :=
  ∃ elements : List (Option Nat), heap[array]? = some (.array elements) ∧
    elements.length = parameters.length ∧
    ∀ (index : Nat) (type : FieldType) (value : Value Nat),
      parameters[index]? = some type → values[index]? = some value →
        ∃ element, elements[index]? = some element ∧ Delivers heap type value element

theorem run_packArguments {parameters : List FieldType} {values : List (Value Nat)}
    (typed : Value.HaveTypes parameters values)
    (short : parameters.length < 2 ^ 31) : ∃ (array : Nat) (after : Heap),
      runtime.run ⟨values.reverse ++ rest, heap⟩ (packArguments (parameters.map ValueMarshal.of)) =
        some ⟨.reference (some array) :: rest, after⟩ ∧
      AllDelivered after array parameters values ∧
      ∀ (place : Nat) (object : HeapObject),
        heap[place]? = some object → after[place]? = some object := by
  have arrayMade : runtime.run ⟨values.reverse ++ rest, heap⟩
      [loadInt parameters.length, .onClass .newArray (.object .object)] =
        some ⟨.reference (some heap.length) :: (values.reverse ++ rest),
          heap ++ [.array (.replicate parameters.length none)]⟩ := by
    rw [run_step (step_loadInt short), run_step (step_newArray (nonneg_ofNat short)),
      toNat_ofNat short]
    rfl
  have valueTyped : ∀ argument ∈ (arguments parameters values).reverse,
      argument.value.hasType argument.type = true := by
    intro argument member
    obtain ⟨isParameter, isValue⟩ := mem_arguments.mp (List.mem_reverse.mp member)
    obtain ⟨first, isParameter⟩ := List.getElem?_eq_some_iff.mp isParameter
    obtain ⟨second, isValue⟩ := List.getElem?_eq_some_iff.mp isValue
    rw [← isParameter, ← isValue]
    exact typed.get first second
  have inside : ∀ argument ∈ (arguments parameters values).reverse,
      argument.index < (List.replicate parameters.length (none : Option Nat)).length := by
    intro argument member
    rw [List.length_replicate]
    obtain ⟨isParameter, -⟩ := mem_arguments.mp (List.mem_reverse.mp member)
    exact (List.getElem?_eq_some_iff.mp isParameter).1
  have apart : ((arguments parameters values).reverse.map Argument.index).Nodup := by
    rw [List.map_reverse, arguments_index typed]
    exact List.pairwise_reverse.mpr (List.nodup_range.imp Ne.symm)
  have isArray : (heap ++ [.array (.replicate parameters.length none)])[heap.length]? =
      some (.array (.replicate parameters.length none)) := by simp
  obtain ⟨elements, after, packs, filled, delivered, -⟩ := @run_packAll runtime rest
    (heap ++ [.array (.replicate parameters.length none)]) heap.length
    (arguments parameters values).reverse _ valueTyped inside apart
    (by rwa [List.length_replicate]) isArray
  refine ⟨heap.length, after, ?_, ⟨elements, filled.isArray, ?_, ?_⟩, ?_⟩
  · rw [packArguments, run_append, List.length_map, arrayMade, Option.bind_some,
      arguments_packed typed]
    rw [List.map_reverse, arguments_value typed] at packs
    exact packs
  · rw [filled.length, List.length_replicate]
  · intro index type value isParameter isValue
    exact delivered ⟨type, value, index⟩
      (List.mem_reverse.mpr (mem_arguments.mpr ⟨isParameter, isValue⟩))
  · intro place object found
    have old := (List.getElem?_eq_some_iff.mp found).1
    refine filled.keeps place object (Nat.ne_of_lt old) ?_
    rwa [List.getElem?_append_left old]

end HookCall

/-- What an answer of a reflective call stands for: nothing if the method returns nothing, and
otherwise a value of its result type, primitives in a wrapper. -/
inductive Reflection.Answers (runtime : Reflection) (heap : Heap) :
    Option FieldType → Option Nat → Option (Value Nat) → Prop where
  | nothing {answer : Option Nat} : Answers runtime heap none answer none
  | primitive {type : BaseType} {place : Nat} {value : Value Nat}
      (wrapped : heap[place]? = some (.box type value))
      (typed : value.hasType (.base type) = true) :
      Answers runtime heap (some (.base type)) (some place) (some value)
  | reference {type : RefType} {answer : Option Nat}
      (fits : runtime.isInstance heap type answer = true) :
      Answers runtime heap (some (.ref type)) answer (some (.reference answer))

/-- There is one value of the result type, or none if there is nothing to answer. -/
theorem Reflection.Answers.typed {runtime : Reflection} {heap : Heap} {declared : Option FieldType}
    {answer : Option Nat} {result : Option (Value Nat)}
    (answers : runtime.Answers heap declared answer result) :
    Option.Rel (fun type value => Value.hasType value type = true) declared result := by
  cases answers with
  | nothing => exact .none
  | primitive _ typed => exact .some typed
  | reference => exact .some rfl

namespace HookCall

variable {runtime : Reflection} {rest : List (Value Nat)} {heap : Heap}

/-- The instructions before the reflective call. -/
def preparation (call : HookCall) : List SymInstruction :=
  packArguments call.parameters
    ++ [.field .getStatic call.fields.methodField, .plain (.stack .dupX2), .plain (.stack .pop)]

theorem instructions_eq (call : HookCall) : call.instructions =
    call.preparation ++ .invoke .virtual Platform.invoke :: call.unwrapResult := by
  have isInvoke : invokeMethod = Platform.invoke := rfl
  unfold instructions preparation
  simp only [isInvoke, List.append_assoc, List.cons_append, List.nil_append]

/-- What an answer stands for takes its place. -/
theorem run_unwrapResult {fields : HookFields} {interface : InterfaceMethod} {answer : Option Nat}
    {result : Option (Value Nat)}
    (answers : runtime.Answers heap interface.descriptor.result answer result) :
    runtime.run ⟨.reference answer :: rest, heap⟩ (HookCall.of fields interface).unwrapResult =
      some ⟨result.toList ++ rest, heap⟩ := by
  rw [unwrapResult, HookCall.of]
  generalize interface.descriptor.result = declared at answers ⊢
  cases answers with
  | nothing => exact run_step (step_stack (StackOp.rearrange_pop rfl))
  | @primitive type place value wrapped typed =>
    have isWrapper : Platform.wrapper type = type.boxClass := by cases type <;> rfl
    have fits : runtime.isInstance heap (.object type.boxClass) (some place) = true := by
      simp [isInstance, wrapped, HeapObject.type, isWrapper]
    have unwrapped : CallState.unwrap ⟨.reference (some place) :: rest, heap⟩ type =
        some ⟨value :: rest, heap⟩ := by
      simp [CallState.unwrap, wrapped]
    exact (run_step (step_checkCast fits)).trans (run_step ((step_unboxing type).trans unwrapped))
  | @reference type answer fits =>
    by_cases root : type = .object .object
    · have nothing : (ValueMarshal.of (.ref type)).unboxing = [] := if_pos root
      simp only [Option.map_some, nothing]
      rfl
    · have cast : (ValueMarshal.of (.ref type)).unboxing = [.onClass .checkCast type] := if_neg root
      simp only [Option.map_some, cast]
      exact run_step (step_checkCast fits)

/-- Calling the interface takes the values of the arguments and the receiver off the stack. The
reflective call finds the cached method, the receiver, and an array of the values, those of primitive
parameters in wrappers. What it answers is left in their place, and nothing else changes. On the way
there and back, no step takes a value of two slots apart. -/
theorem instructions_deliver (runtime : Reflection) {fields : HookFields}
    {interface : InterfaceMethod} {values rest : List (Value Nat)} {receiver method : Option Nat}
    {heap : Heap} (short : interface.descriptor.parameters.length < 2 ^ 31)
    (cached : runtime.static fields.methodField = some (.reference method))
    (typed : Value.HaveTypes interface.descriptor.parameters values) :
    let call := HookCall.of fields interface
    ∃ (array : Nat) (called : Heap),
      runtime.run ⟨values.reverse ++ .reference receiver :: rest, heap⟩ call.preparation =
        some ⟨.reference (some array) :: .reference receiver :: .reference method :: rest, called⟩ ∧
      AllDelivered called array interface.descriptor.parameters values ∧
      (∀ (place : Nat) (object : HeapObject),
        heap[place]? = some object → called[place]? = some object) ∧
      runtime.MovesWhole ⟨values.reverse ++ .reference receiver :: rest, heap⟩ call.preparation ∧
      call.instructions =
        call.preparation ++ .invoke .virtual Platform.invoke :: call.unwrapResult ∧
      ∀ answer later result,
        runtime.invoke called method receiver (some array) = some (answer, later) →
        runtime.Answers later interface.descriptor.result answer result →
          runtime.run ⟨values.reverse ++ .reference receiver :: rest, heap⟩ call.instructions =
            some ⟨result.toList ++ rest, later⟩ ∧
          runtime.MovesWhole ⟨values.reverse ++ .reference receiver :: rest, heap⟩
            call.instructions ∧
          Option.Rel (fun type value => Value.hasType value type = true)
            interface.descriptor.result result := by
  intro call
  obtain ⟨array, called, packs, delivered, kept⟩ := @run_packArguments runtime
    (.reference receiver :: rest) heap _ _ typed short
  have prepared : runtime.run ⟨values.reverse ++ .reference receiver :: rest, heap⟩ call.preparation =
      some ⟨.reference (some array) :: .reference receiver :: .reference method :: rest, called⟩ := by
    have cached : runtime.static call.fields.methodField = some (.reference method) := cached
    have packed : runtime.run ⟨values.reverse ++ .reference receiver :: rest, heap⟩
        (packArguments call.parameters) = _ := packs
    rw [preparation, run_append, packed, Option.bind_some, run_step (step_getStatic cached), CallState.push,
      run_step (step_stack (StackOp.rearrange_dupX2 rfl rfl rfl)),
      run_step (step_stack (StackOp.rearrange_pop rfl))]
    rfl
  refine ⟨array, called, prepared, delivered, kept, run_movesWhole prepared, instructions_eq call, ?_⟩
  intro answer later result invoked answers
  have ran : runtime.run ⟨values.reverse ++ .reference receiver :: rest, heap⟩ call.instructions =
      some ⟨result.toList ++ rest, later⟩ := by
    rw [instructions_eq, run_append, prepared, Option.bind_some, run_step (step_invoke invoked)]
    exact run_unwrapResult answers
  exact ⟨ran, run_movesWhole ran, answers.typed⟩

end HookCall

def mixedInterface : InterfaceMethod where
  owner := ⟨"Task", by decide⟩
  name := ⟨"call", by decide⟩
  descriptor := ⟨[.base .long, .ref (.object .string), .base .boolean], some (.base .double)⟩

def mixedFields : HookFields where
  classField := ⟨⟨"app/Main", by decide⟩, ⟨"CTASK", by decide⟩, .object .classObject⟩
  methodField := ⟨⟨"app/Main", by decide⟩, ⟨"CTASK_CALL", by decide⟩, .object .reflectMethod⟩

/-- The method is the first object there is, and answers with a new wrapper. -/
def mixedRuntime : Reflection where
  static field := if field = mixedFields.methodField then some (.reference (some 0)) else none
  isSubtype _ _ := false
  invoke heap _ _ _ := some (some heap.length, heap ++ [.box .double (.double 9)])

def mixedValues : List (Value Nat) := [.long 7, .reference none, .int 1]

def mixedHeap : Heap := [.other (.object .reflectMethod), .other (.object .string)]

theorem mixed_deliver : mixedInterface.descriptor.parameters.length < 2 ^ 31 ∧
    mixedRuntime.static mixedFields.methodField = some (.reference (some 0)) ∧
    Value.HaveTypes mixedInterface.descriptor.parameters mixedValues ∧
    ∃ array called,
      HookCall.AllDelivered called array mixedInterface.descriptor.parameters mixedValues ∧
      mixedRuntime.run ⟨mixedValues.reverse ++ [.reference (some 1), .double 5], mixedHeap⟩
          (HookCall.of mixedFields mixedInterface).instructions =
        some ⟨[.double 9, .double 5], called ++ [.box .double (.double 9)]⟩ := by
  have short : mixedInterface.descriptor.parameters.length < 2 ^ 31 := by decide
  have cached : mixedRuntime.static mixedFields.methodField = some (.reference (some 0)) := by
    simp only [mixedRuntime, if_true]
  have typed : Value.HaveTypes mixedInterface.descriptor.parameters mixedValues :=
    .cons rfl (.cons rfl (.cons rfl .nil))
  obtain ⟨array, called, -, delivered, -, -, -, answered⟩ :=
    HookCall.instructions_deliver mixedRuntime short cached typed
  refine ⟨short, cached, typed, array, called, delivered, ?_⟩
  exact (answered _ _ _ rfl (.primitive (by simp) rfl)).1

end ClassWeave
