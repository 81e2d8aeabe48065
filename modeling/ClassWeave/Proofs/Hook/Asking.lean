import ClassWeave.Proofs.Hook.Fitting
import ClassWeave.Proofs.Typing.Exchanges
import ClassWeave.Proofs.Typing.Keeping
import ClassWeave.Proofs.Typing.Shifting

/-!
# What asking an object does to a frame

A hook tests the object, loads it and the arguments, calls the interface method and unwraps the answer.
None of this touches the locals, and what it leaves on the stack is known whatever is below.
-/

namespace ClassWeave

open VFrame

namespace HookCall

/-- The call of the interface leaves the locals alone. -/
theorem items_readOnly {call : HookCall} {item : Item} (member : item ∈ call.items) :
    item.readsOnly = true := by
  obtain ⟨step, present, rfl⟩ := List.mem_map.mp member
  have loads (value : Nat) : (Item.instruction (loadInt value)).readsOnly = true := by
    unfold loadInt
    split
    iterate 6 rfl
    split
    · rfl
    · split <;> rfl
  have boxes {argument : ValueMarshal} (boxing : step ∈ argument.boxing?.toList) :
      (Item.instruction step).readsOnly = true := by
    cases argument with
    | reference => cases boxing
    | primitive =>
      cases List.mem_singleton.mp boxing
      rfl
  have unwraps {result : ValueMarshal} (unboxing : step ∈ result.unboxing) :
      (Item.instruction step).readsOnly = true := by
    cases result with
    | reference type =>
      by_cases root : type = .object .object
      · simp [ValueMarshal.unboxing, root] at unboxing
      · obtain rfl : step = .onClass .checkCast type := by
          simpa [ValueMarshal.unboxing, root] using unboxing
        rfl
    | primitive type => rcases List.mem_pair.mp unboxing with rfl | rfl <;> rfl
  simp only [instructions, packArguments, packArgument, List.mem_append, List.mem_flatMap,
    List.mem_cons, List.not_mem_nil, or_false] at present
  rcases present with (((rfl | rfl) | ⟨_, -, (((rfl | rfl | rfl) | boxing) | rfl | rfl | rfl)⟩) |
    rfl | rfl | rfl | rfl) | unwrapped
  case inr =>
    unfold unwrapResult at unwrapped
    split at unwrapped
    · cases List.mem_singleton.mp unwrapped
      rfl
    · exact unwraps unwrapped
  all_goals first | rfl | exact boxes boxing | exact loads _

end HookCall

namespace HookSite

/-- Nothing is stored before there is an answer. -/
theorem asking_readOnly {call : HookCall} {target : Target} {slot : UInt16} {skip : Label}
    {item : Item} (member : item ∈ asking call target slot skip) : item.readsOnly = true := by
  simp only [asking, test, step, HookCall.guard, List.mem_append, List.mem_cons, List.mem_map,
    List.not_mem_nil, or_false] at member
  rcases member with (((rfl | rfl | rfl | rfl | rfl) | rfl) | ⟨⟨argument, _⟩, -, rfl⟩) | called
  case inl.inr =>
    cases argument with
    | reference => rfl
    | primitive type => cases type <;> rfl
  case inr => exact HookCall.items_readOnly called
  all_goals rfl

theorem asking_noLabel {call : HookCall} {skip : Label} {item : Item}
    (member : item ∈ asking call target slot skip) : item.label? = none := by
  simp only [asking, test, step, HookCall.guard, HookCall.items, List.mem_append, List.mem_cons,
    List.mem_map, List.not_mem_nil, or_false] at member
  rcases member with (((rfl | rfl | rfl | rfl | rfl) | rfl) | ⟨_, -, rfl⟩) | ⟨_, -, rfl⟩ <;> rfl

/-- What an item hands over: to the test, to the interface method as its object or in the array of its
arguments, or to a field. -/
def handedOver : Item → List VType → Option VType
  | .instruction (.invoke .virtual method), stack =>
    if method = HookCall.isInstanceMethod then stack[0]?
    else if method = HookCall.invokeMethod then stack[1]?
    else none
  | .instruction (.plain (.arrayStore .reference)), stack
  | .instruction (.field .putField _), stack => stack[0]?
  | _, _ => none

theorem handedOver_isInstance (object : VType) (stack : List VType) :
    handedOver (.instruction (.invoke .virtual HookCall.isInstanceMethod)) (object :: stack) =
      some object := by
  rw [handedOver, if_pos rfl]
  rfl

theorem handedOver_invoke (array object : VType) (stack : List VType) :
    handedOver (.instruction (.invoke .virtual HookCall.invokeMethod)) (array :: object :: stack) =
      some object := by
  rw [handedOver, if_neg (by decide), if_pos rfl]
  rfl

/-- Other calls than those two hand over nothing that a hook has been given. -/
theorem handedOver_virtual {method : MethodRef} (test : method ≠ HookCall.isInstanceMethod)
    (call : method ≠ HookCall.invokeMethod) (stack : List VType) :
    handedOver (.instruction (.invoke .virtual method)) stack = none := by
  rw [handedOver, if_neg test, if_neg call]

theorem handedOver_getter {method : MethodRef} (noParameters : method.descriptor.parameters = [])
    (stack : List VType) : handedOver (.instruction (.invoke .virtual method)) stack = none := by
  refine handedOver_virtual ?_ ?_ stack <;> rintro rfl <;> cases noParameters

/-- With locals like these, the items lead from stacks like the first to stacks like the second, and
hand over values like those listed. -/
inductive Walks (related : VType → VType → Prop) (locals : List VType) :
    List Item → (before after handed : List VType) → Prop where
  | nil {stack : List VType} : Walks related locals [] stack stack []
  | step {item : Item} {items : List Item} {before middle after handed : List VType}
      (shifts : item.Shifts related locals before middle)
      (rest : Walks related locals items middle after handed) :
      Walks related locals (item :: items) before after ((handedOver item before).toList ++ handed)

namespace Walks

variable {related : VType → VType → Prop}
  {locals before middle after handed others : List VType} {type : VType} {item : Item}
  {items earlier later : List Item}

theorem silent (shifts : item.Shifts related locals before middle)
    (rest : Walks related locals items middle after handed)
    (quiet : handedOver item before = none) :
    Walks related locals (item :: items) before after handed := by
  have walks := step shifts rest
  rwa [quiet] at walks

theorem hands (shifts : item.Shifts related locals before middle)
    (rest : Walks related locals items middle after handed)
    (handing : handedOver item before = some type) :
    Walks related locals (item :: items) before after (type :: handed) := by
  have walks := step shifts rest
  rwa [handing] at walks

theorem append (first : Walks related locals earlier before middle handed)
    (second : Walks related locals later middle after others) :
    Walks related locals (earlier ++ later) before after (handed ++ others) := by
  induction first with
  | nil => exact second
  | step shifts _ ih =>
    rw [List.append_assoc]
    exact .step shifts (ih second)

/-- Items that walk from one stack to another find the stacks in between one after the other. -/
theorem exists_between (walks : Walks related locals items before after handed) :
    ∃ between : Nat → List VType, between 0 = before ∧ between items.length = after ∧
      ∀ {index : Nat} {item : Item}, items[index]? = some item →
        item.Shifts related locals (between index) (between (index + 1)) := by
  induction walks with
  | @nil stack => exact ⟨fun _ => stack, rfl, rfl, nofun⟩
  | @step item items before middle after handed shifts rest ih =>
    obtain ⟨between, rfl, ends, each⟩ := ih
    refine ⟨fun index => if index = 0 then before else between (index - 1), rfl, ends, ?_⟩
    intro index found there
    cases index with
    | zero =>
      cases there
      exact shifts
    | succ index => exact each there

/-- Where a walk goes on, the stack is known. -/
theorem exists_between_append (first : Walks related locals earlier before middle handed)
    (second : Walks related locals later middle after others) :
    ∃ between : Nat → List VType, between 0 = before ∧ between earlier.length = middle ∧
      between (earlier ++ later).length = after ∧ ∀ {index : Nat} {item : Item},
        (earlier ++ later)[index]? = some item →
          item.Shifts related locals (between index) (between (index + 1)) := by
  obtain ⟨early, starts, meets, earlyEach⟩ := first.exists_between
  obtain ⟨late, onward, ends, lateEach⟩ := second.exists_between
  let between (index : Nat) : List VType :=
    if index < earlier.length then early index else late (index - earlier.length)
  have before {index : Nat} (within : index ≤ earlier.length) : between index = early index := by
    rcases Nat.lt_or_eq_of_le within with inside | rfl
    · exact if_pos inside
    · simp [between, onward, meets]
  have behind {index : Nat} : between (earlier.length + index) = late index := by
    simp [between]
  refine ⟨between, (before (Nat.zero_le _)).trans starts, (before (Nat.le_refl _)).trans meets,
    by rw [List.length_append, behind, ends], fun {index item} found => ?_⟩
  rcases Nat.lt_or_ge index earlier.length with inside | beyond
  · rw [List.getElem?_append_left inside] at found
    rw [before (Nat.le_of_lt inside), before inside]
    exact earlyEach found
  · rw [List.getElem?_append_right beyond] at found
    obtain ⟨rest, rfl⟩ := Nat.exists_eq_add_of_le beyond
    rw [behind, Nat.add_assoc, behind]
    rw [Nat.add_sub_cancel_left] at found
    exact lateEach found

end Walks

theorem handedOver_loadInt (value : Nat) (stack : List VType) :
    handedOver (.instruction (loadInt value)) stack = none := by
  unfold loadInt
  split
  iterate 6 rfl
  split
  · rfl
  · split <;> rfl

/-- What is on the stack for an argument once it is loaded. -/
def argumentType (locals : List VType) (argument : FieldType × UInt16) : VType :=
  match argument.1 with
  | .ref _ => locals.getD argument.2.toNat .top
  | .base base => .ofFieldType (.base base)

/-- What is put into the array for an argument. -/
def passedType (argument : FieldType × VType) : VType :=
  match argument.1 with
  | .ref _ => argument.2
  | .base base => VType.ofClass base.boxClass

section

variable {related : VType → VType → Prop} (resembles : VType.Resembles related)
  {locals stack : List VType} {object type : VType} {parameter : FieldType}

include resembles

theorem shifts_loadInt (value : Nat) :
    (Item.instruction (loadInt value)).Shifts related locals stack (.integer :: stack) :=
  .of_execute fun _ _ _ _ like =>
    ⟨_, HookCall.load_int_execute value, .cons (resembles.refl _) like⟩

/-- The test hands over the object. -/
theorem test_walks {call : HookCall} (typed : HookCall.FieldsTyped call.fields) (slot : UInt16)
    (skip : Label) (reference : (locals.getD slot.toNat .top).isReference = true) :
    Walks related locals (test call slot skip) stack stack [locals.getD slot.toNat .top] := by
  refine .silent (.loadReference slot) ?_ rfl
  generalize locals.getD slot.toNat .top = object at reference ⊢
  have suit : List.Forall₂ VType.Suits HookCall.isInstanceMethod.descriptor.parameters.reverse [object] :=
    .cons reference .nil
  exact .silent (.getStatic resembles typed.classField) (.silent
    (.swap resembles rfl (VType.width_of_isReference reference))
    (.hands (.invokeVirtual resembles suit rfl) (.silent (.jumpIfZero _ skip) .nil rfl)
      (handedOver_isInstance _ _)) rfl) rfl

theorem loads_walk (arguments : List (FieldType × UInt16)) :
    Walks related locals
      (arguments.map fun argument => step (loadArgument (.of argument.1) argument.2)) stack
      ((arguments.map (argumentType locals)).reverse ++ stack) [] := by
  induction arguments generalizing stack with
  | nil => exact .nil
  | cons argument arguments ih =>
    obtain ⟨parameter, slot⟩ := argument
    rw [List.map_cons, List.map_cons, List.reverse_cons, List.append_assoc]
    cases parameter with
    | ref => exact .silent (.loadReference slot) ih rfl
    | base base => cases base <;> exact .silent (.loadPrimitive resembles rfl slot) ih rfl

theorem tuck_walks (width : type.width = if (ValueMarshal.of parameter).isWide then 2 else 1) :
    let dup : SymInstruction :=
      .plain (.stack (if (ValueMarshal.of parameter).isWide then .dupX2 else .dupX1))
    Walks related locals ([dup, dup, .plain (.stack .pop)].map Item.instruction)
      (HookCall.packed :: type :: stack)
      (type :: HookCall.packed :: HookCall.packed :: stack) [] := by
  split at width
  · rename_i wide
    simp only [wide, if_true]
    exact .silent (.dupX2_wide resembles rfl width) (.silent (.dupX2_wide resembles rfl width)
      (.silent (.pop resembles rfl) .nil rfl) rfl) rfl
  · rename_i narrow
    simp only [narrow]
    exact .silent (.dupX1 resembles rfl width) (.silent (.dupX1 resembles rfl width)
      (.silent (.pop resembles rfl) .nil rfl) rfl) rfl

theorem packArgument_walks (suits : VType.Suits parameter type) (index : Nat) :
    Walks related locals ((HookCall.packArgument index (.of parameter)).map Item.instruction)
      (HookCall.packed :: type :: stack) (HookCall.packed :: stack)
      [passedType (parameter, type)] := by
  have stores {value : VType} (reference : value.isReference = true) :
      Walks related locals ([loadInt index, .plain (.stack .swap),
        .plain (.arrayStore .reference)].map Item.instruction)
        (value :: HookCall.packed :: HookCall.packed :: stack) (HookCall.packed :: stack) [value] :=
    .silent (shifts_loadInt resembles index) (.silent
      (.swap resembles rfl (VType.width_of_isReference reference))
      (.hands .arrayStore .nil rfl) rfl) (handedOver_loadInt _ _)
  rw [HookCall.packArgument, List.map_append, List.map_append]
  cases parameter with
  | ref name =>
    have width : type.width = 1 := VType.width_of_isReference suits
    exact ((tuck_walks resembles width).append .nil).append (stores suits)
  | base base =>
    have width := HookCall.isWide_width (.base base)
    rw [← show type = .ofFieldType (.base base) from suits] at width
    have boxes : Walks related locals
        ((ValueMarshal.of (.base base)).boxing?.toList.map Item.instruction)
        (type :: HookCall.packed :: HookCall.packed :: stack)
        (VType.ofClass base.boxClass :: HookCall.packed :: HookCall.packed :: stack) [] :=
      .silent (.invokeStatic resembles rfl suits) .nil rfl
    exact ((tuck_walks resembles width).append boxes).append (stores rfl)

/-- All arguments, the last one first, go into the array. -/
theorem packArguments_walks {arguments : List (FieldType × VType)}
    (suit : ∀ argument ∈ arguments, VType.Suits argument.1 argument.2) :
    Walks related locals
      ((HookCall.packArguments (arguments.map fun argument => .of argument.1)).map Item.instruction)
      (arguments.reverse.map Prod.snd ++ stack) (HookCall.packed :: stack)
      (arguments.reverse.map passedType) := by
  have packing (pairs : List ((FieldType × VType) × Nat))
      (suit : ∀ pair ∈ pairs, VType.Suits pair.1.1 pair.1.2) : Walks related locals
      ((pairs.flatMap fun pair => HookCall.packArgument pair.2 (.of pair.1.1)).map Item.instruction)
      (HookCall.packed :: pairs.map (·.1.2) ++ stack) (HookCall.packed :: stack)
      (pairs.map (passedType ·.1)) := by
    induction pairs with
    | nil => exact .nil
    | cons pair pairs ih =>
      rw [List.flatMap_cons, List.map_append]
      exact (packArgument_walks resembles (suit pair List.mem_cons_self) pair.2).append
        (ih fun other member => suit other (List.mem_cons_of_mem pair member))
  have items : (arguments.map fun argument => ValueMarshal.of argument.1).zipIdx.reverse.flatMap
      (fun pair => HookCall.packArgument pair.2 pair.1) =
        arguments.zipIdx.reverse.flatMap fun pair =>
          HookCall.packArgument pair.2 (.of pair.1.1) := by
    rw [List.zipIdx_map, ← List.map_reverse, List.flatMap_map]
    rfl
  have each {β : Type} (change : FieldType × VType → β) :
      arguments.reverse.map change = arguments.zipIdx.reverse.map (change ·.1) := by
    change _ = List.map (change ∘ Prod.fst) _
    rw [← List.map_map, List.map_reverse, List.map_reverse, List.map_reverse, List.zipIdx_map_fst]
  rw [HookCall.packArguments, List.map_append, items, each, each]
  refine Walks.append (.silent (shifts_loadInt resembles _) (.silent (.newArray resembles _) .nil rfl)
    (handedOver_loadInt _ _)) (packing _ fun pair member => suit _ ?_)
  exact List.fst_mem_of_mem_zipIdx (List.mem_reverse.mp member)

/-- The call hands over the object below the array. -/
theorem invoke_walks {call : HookCall} (typed : HookCall.FieldsTyped call.fields)
    (reference : object.isReference = true) :
    Walks related locals
      ([.field .getStatic call.fields.methodField, .plain (.stack .dupX2), .plain (.stack .pop),
        .invoke .virtual HookCall.invokeMethod].map Item.instruction)
      (HookCall.packed :: object :: stack) (VType.ofClass .object :: stack) [object] := by
  have single := VType.width_of_isReference reference
  have suit : List.Forall₂ VType.Suits HookCall.invokeMethod.descriptor.parameters.reverse
      [HookCall.packed, object] := .cons rfl (.cons reference .nil)
  exact .silent (.getStatic resembles typed.methodField) (.silent (.dupX2 resembles rfl rfl single)
    (.silent (.pop resembles rfl) (.hands (.invokeVirtual resembles suit rfl) .nil
      (handedOver_invoke _ _ _)) rfl) rfl) rfl

end

/-- What puts the object and the arguments on the stack. -/
def operands (call : HookCall) (target : Target) (slot : UInt16) : List Item :=
  step (.load .reference slot) :: (call.parameters.zip target.argumentSlots).map
    (fun (argument, argumentSlot) => step (loadArgument argument argumentSlot))

/-- The test, and the operands of the call. -/
def loading (call : HookCall) (target : Target) (slot : UInt16) (skip : Label) : List Item :=
  test call slot skip ++ operands call target slot

/-- The call, as long as its answer is not looked at. -/
def delivering (call : HookCall) : List Item :=
  (HookCall.packArguments call.parameters).map Item.instruction
    ++ [step (.field .getStatic call.fields.methodField), step (.plain (.stack .dupX2)),
      step (.plain (.stack .pop)), step (.invoke .virtual HookCall.invokeMethod)]

theorem asking_eq (call : HookCall) (target : Target) (slot : UInt16) (skip : Label) :
    asking call target slot skip = loading call target slot skip ++ delivering call ++
      call.unwrapResult.map Item.instruction := by
  simp [asking, loading, operands, delivering, HookCall.items, HookCall.instructions, step]

/-- The parameters of the interface method, and what is on the stack for them. -/
def loaded (interface : InterfaceMethod) (target : Target) (locals : List VType) :
    List (FieldType × VType) :=
  (interface.descriptor.parameters.zip target.argumentSlots).map fun argument =>
    (argument.1, argumentType locals argument)

section

variable {related : VType → VType → Prop} (resembles : VType.Resembles related)
  {fields : HookFields} {interface : InterfaceMethod} {target : Target} {slot : UInt16}
  {locals stack : List VType}

include resembles

theorem operands_walks : Walks related locals (operands (.of fields interface) target slot) stack
    ((loaded interface target locals).reverse.map Prod.snd ++ locals.getD slot.toNat .top :: stack)
    [] := by
  rw [operands, HookCall.of, List.zip_map_left, List.map_map, loaded, ← List.map_reverse,
    List.map_map, List.map_reverse]
  exact .silent (.loadReference slot) (loads_walk resembles _) rfl

theorem loading_walks (typed : HookCall.FieldsTyped fields) (skip : Label)
    (reference : (locals.getD slot.toNat .top).isReference = true) :
    Walks related locals (loading (.of fields interface) target slot skip) stack
      ((loaded interface target locals).reverse.map Prod.snd ++ locals.getD slot.toNat .top :: stack)
      [locals.getD slot.toNat .top] := by
  exact (test_walks resembles typed slot skip reference).append (operands_walks resembles)

theorem delivering_walks (typed : HookCall.FieldsTyped fields)
    (count : target.argumentSlots.length = interface.descriptor.parameters.length)
    (suit : ∀ argument ∈ loaded interface target locals, VType.Suits argument.1 argument.2)
    {object : VType} (reference : object.isReference = true) :
    Walks related locals (delivering (.of fields interface))
      ((loaded interface target locals).reverse.map Prod.snd ++ object :: stack)
      (VType.ofClass .object :: stack)
      ((loaded interface target locals).reverse.map passedType ++ [object]) := by
  have parameters : (HookCall.of fields interface).parameters =
      (loaded interface target locals).map fun argument => .of argument.1 := by
    rw [loaded, List.map_map, HookCall.of]
    change _ = List.map (ValueMarshal.of ∘ Prod.fst) _
    rw [← List.map_map, List.map_fst_zip (Nat.le_of_eq count.symm)]
  rw [delivering, parameters]
  exact (packArguments_walks resembles suit).append (invoke_walks resembles typed reference)

/-- The answer is on the stack as what the interface method is declared to result in. -/
theorem unwrap_walks {answer : RefType}
    (answers : interface.descriptor.result = some (.ref answer)) : ∃ handed,
    Walks related locals ((HookCall.of fields interface).unwrapResult.map Item.instruction)
      (VType.ofClass .object :: stack) (.object answer :: stack) handed := by
  have unboxing : (HookCall.of fields interface).unwrapResult =
      (ValueMarshal.of (.ref answer)).unboxing := by
    rw [HookCall.unwrapResult, HookCall.of, answers]
    rfl
  rw [unboxing]
  by_cases root : answer = .object .object
  · subst root
    exact ⟨_, .nil⟩
  · have casts : (ValueMarshal.of (.ref answer)).unboxing = [.onClass .checkCast answer] := if_neg root
    rw [casts]
    exact ⟨_, .step (.checkCast resembles answer rfl) .nil⟩

variable (slot) in
/-- However locals are known to hold references, asking leads from any stack to the answer on top of
it, and from the test back to the same stack. -/
theorem asking_between (typed : HookCall.FieldsTyped fields)
    (count : target.argumentSlots.length = interface.descriptor.parameters.length)
    {answer : RefType} (answers : interface.descriptor.result = some (.ref answer)) (skip : Label)
    (known : ∀ slot : UInt16, (locals.getD slot.toNat .top).isReference = true)
    (stack : List VType) : ∃ between : Nat → List VType, between 0 = stack ∧ between 5 = stack ∧
      between (asking (.of fields interface) target slot skip).length = .object answer :: stack ∧
      ∀ {index : Nat} {item : Item},
        (asking (.of fields interface) target slot skip)[index]? = some item →
          item.Shifts related locals (between index) (between (index + 1)) := by
  have suit : ∀ argument ∈ loaded interface target locals, VType.Suits argument.1 argument.2 := by
    intro argument member
    obtain ⟨⟨parameter, argumentSlot⟩, -, rfl⟩ := List.mem_map.mp member
    cases parameter with
    | base => exact rfl
    | ref type => exact known argumentSlot
  obtain ⟨_, unwraps⟩ : ∃ handed, Walks related locals
      ((HookCall.of fields interface).unwrapResult.map Item.instruction)
      (VType.ofClass .object :: stack) (.object answer :: stack) handed :=
    unwrap_walks resembles answers
  have split : asking (.of fields interface) target slot skip =
      test (.of fields interface) slot skip ++ (operands (.of fields interface) target slot ++
        delivering (.of fields interface) ++
          (HookCall.of fields interface).unwrapResult.map Item.instruction) := by
    rw [asking_eq, loading, List.append_assoc, List.append_assoc, List.append_assoc]
  rw [split]
  exact (test_walks resembles typed slot skip (known slot)).exists_between_append
    (((operands_walks resembles).append
      (delivering_walks resembles typed count suit (known slot))).append unwraps)

end

section

variable {call : HookCall} {target : Target} {slot : UInt16} {skip : Label}

/-- Only the test jumps, with its last item. -/
theorem asking_branch {index : Nat} {jump : Branch Label}
    (found : (asking call target slot skip)[index]? = some (.branch jump)) : index = 4 := by
  have split : asking call target slot skip = test call slot skip ++
      (operands call target slot ++ call.items) := by
    simp [asking, operands]
  rcases Nat.lt_or_ge index (test call slot skip).length with early | late
  · rw [split, List.getElem?_append_left early] at found
    rcases index with _ | _ | _ | _ | _ | index
    case succ.succ.succ.succ.zero => rfl
    case succ.succ.succ.succ.succ => exact absurd early (by simp [test, HookCall.guard])
    all_goals cases found
  · rw [split, List.getElem?_append_right late] at found
    have member := List.mem_of_getElem? found
    simp [operands, step, HookCall.items] at member

variable (target slot skip) in
/-- The answer is on top of the stack, whatever is known of the stack before the last item. -/
theorem asking_last (fields : HookFields) {interface : InterfaceMethod} {answer : RefType}
    (answers : interface.descriptor.result = some (.ref answer)) : ∃ earlier last,
      asking (.of fields interface) target slot skip = earlier ++ [.instruction last] ∧
        ∀ ⦃method position before after⦄,
          FlowGraph.after method position before (.instruction last) = .ok after →
            ∃ rest, after.stack = .object answer :: rest := by
  have unboxing : (HookCall.of fields interface).unwrapResult =
      (ValueMarshal.of (.ref answer)).unboxing := by
    rw [HookCall.unwrapResult, HookCall.of, answers]
    rfl
  have tops {takes : Nat} {last : SymInstruction} (exchanges : ∀ thisClass position,
      FrameM.Exchanges takes [.object answer] (FrameM.instruction thisClass position last))
      ⦃method position before after⦄
      (done : FlowGraph.after method position before (.instruction last) = .ok after) :
      ∃ rest, after.stack = .object answer :: rest := by
    obtain rfl := exchanges _ _ (execute_ok.mp done)
    exact ⟨_, rfl⟩
  by_cases root : answer = .object .object
  · subst root
    have nothing : (ValueMarshal.of (.ref (.object .object))).unboxing = [] := rfl
    let calling : List Item := [step (.field .getStatic fields.methodField),
      step (.plain (.stack .dupX2)), step (.plain (.stack .pop))]
    refine ⟨loading (.of fields interface) target slot skip ++
      ((HookCall.packArguments (HookCall.of fields interface).parameters).map Item.instruction ++
        calling), .invoke .virtual HookCall.invokeMethod, ?_,
      tops fun thisClass _ => FrameM.exchanges_invoke thisClass (by decide)⟩
    rw [asking_eq, unboxing, nothing]
    simp [delivering, calling, step, HookCall.of]
  · have casts : (ValueMarshal.of (.ref answer)).unboxing = [.onClass .checkCast answer] := if_neg root
    exact ⟨_, .onClass .checkCast answer, by rw [asking_eq, unboxing, casts]; rfl,
      tops fun _ _ => FrameM.exchanges_popReference.bind fun _ => FrameM.exchanges_push _⟩

end

end HookSite

end ClassWeave
