import Mathlib.Data.List.Forall2
import ClassWeave.Proofs.Outcome
import ClassWeave.Typing.Step

/-!
# Steps of frames

What the instructions of hooks do to a frame that fits them: one lemma for each instruction, or for
each family of instructions that works on the same part of the frame.
-/

namespace ClassWeave

theorem VerificationType.width_eq {κ υ : Type} (type : VerificationType κ υ) :
    type.width = 1 ∨ type.width = 2 := by
  cases type <;> simp [width]

theorem VerificationType.wide_of_not_single {κ υ : Type} (type : VerificationType κ υ)
    (broad : ¬ (type.width == 1) = true) : type.width = 2 :=
  type.width_eq.resolve_left fun single => broad (beq_iff_eq.mpr single)

namespace VType

/-- References take one slot. -/
theorem width_of_isReference {type : VType} (reference : type.isReference = true) :
    type.width = 1 := by
  cases type <;> first | rfl | cases reference

theorem isReference_ofFieldType (type : RefType) : (ofFieldType (.ref type)).isReference = true :=
  rfl

end VType

namespace VFrame

variable {before after : VFrame}

theorem execute_ok {thisClass : BinaryName} {position : Nat} {step : SymInstruction} :
    before.execute thisClass position step = .ok after ↔
      FrameM.instruction thisClass position step before = .ok ((), after) := by
  simp only [execute, Outcome.bind_ok, Outcome.pure_ok]
  constructor
  · rintro ⟨⟨_, _⟩, ran, rfl⟩
    exact ran
  · intro ran
    exact ⟨_, ran, rfl⟩

theorem executeBranch_ok {τ : Type} {result : Option FieldType} {jump : Branch τ} :
    before.executeBranch result jump = .ok after ↔
      FrameM.branch result jump before = .ok ((), after) := by
  simp only [executeBranch, Outcome.bind_ok, Outcome.pure_ok]
  constructor
  · rintro ⟨⟨_, _⟩, ran, rfl⟩
    exact ran
  · intro ran
    exact ⟨_, ran, rfl⟩

end VFrame

section Stores

variable {locals : List VType} {slot index : Nat} {type other : VType}

/-- The local that is stored has the type of the value. -/
theorem storeLocal_self : (storeLocal locals slot type)[slot]? = some type := by
  have room : slot <
      (locals ++ List.replicate (slot + type.width - locals.length) VerificationType.top).length := by
    have width := type.width_eq
    simp only [List.length_append, List.length_replicate]
    omega
  simp only [storeLocal]
  generalize locals ++ List.replicate _ VerificationType.top = padded at room ⊢
  grind

/-- A store leaves the locals before it alone, unless it cuts one of two slots in half. -/
theorem storeLocal_before (before : index < slot) (found : locals[index]? = some other)
    (single : other.width = 1) : (storeLocal locals slot type)[index]? = some other := by
  have kept : (locals ++
      List.replicate (slot + type.width - locals.length) VerificationType.top)[index]? =
        some other := by
    rw [List.getElem?_append_left (List.getElem?_eq_some_iff.mp found).1, found]
  simp only [storeLocal]
  generalize locals ++ List.replicate _ VerificationType.top = padded at kept ⊢
  grind

/-- A value of one slot takes the place of another. -/
theorem storeLocal_eq_set (found : locals[slot]? = some other) (single : other.width = 1)
    (typeSingle : type.width = 1) (whole : 0 < slot → (locals.getD (slot - 1) .top).width = 1) :
    storeLocal locals slot type = locals.set slot type := by
  have inside := (List.getElem?_eq_some_iff.mp found).1
  have missing : slot + type.width - locals.length = 0 := by omega
  simp only [storeLocal, missing, List.replicate_zero, List.append_nil]
  grind

end Stores

namespace FrameM

variable {α β : Type} {locals stack : List VType} {type : VType} {slot : UInt16}

@[simp] theorem bind_run (action : FrameM α) (next : α → FrameM β) (frame : VFrame) :
    (action >>= next) frame = action frame >>= fun result => next result.1 result.2 := rfl

@[simp] theorem map_run (change : α → β) (action : FrameM α) (frame : VFrame) :
    (change <$> action) frame = action frame >>= fun result => .ok (change result.1, result.2) := rfl

@[simp] theorem pure_run (value : α) (frame : VFrame) :
    (pure value : FrameM α) frame = .ok (value, frame) := rfl

@[simp] theorem push_run : push type ⟨locals, stack⟩ = .ok ((), ⟨locals, type :: stack⟩) := rfl

@[simp] theorem pushAll_run (types : List VType) :
    pushAll types ⟨locals, stack⟩ = .ok ((), ⟨locals, types.reverse ++ stack⟩) := rfl

@[simp] theorem pop_run : pop ⟨locals, type :: stack⟩ = .ok (type, ⟨locals, stack⟩) := rfl

@[simp] theorem setLocal_run :
    setLocal slot type ⟨locals, stack⟩ = .ok ((), ⟨storeLocal locals slot.toNat type, stack⟩) := rfl

@[simp] theorem ok_bind {ε : Type} (value : α) (next : α → Except ε β) :
    (Except.ok value >>= next) = next value := rfl

theorem popSingle_run (single : type.width = 1) :
    popSingle ⟨locals, type :: stack⟩ = .ok (type, ⟨locals, stack⟩) := by
  simp [popSingle, single]

theorem popReference_run (reference : type.isReference = true) :
    popReference ⟨locals, type :: stack⟩ = .ok (type, ⟨locals, stack⟩) := by
  simp [popReference, reference]

@[simp] theorem popExpecting_run :
    popExpecting type ⟨locals, type :: stack⟩ = .ok ((), ⟨locals, stack⟩) := by
  simp [popExpecting]

theorem getLocal_run (found : locals[slot.toNat]? = some type) :
    getLocal slot ⟨locals, stack⟩ = .ok (type, ⟨locals, stack⟩) := by
  simp [getLocal, found]

theorem expectLocal_run (found : locals[slot.toNat]? = some type) :
    expectLocal slot type ⟨locals, stack⟩ = .ok ((), ⟨locals, stack⟩) := by
  simp [expectLocal, getLocal_run found]

/-- A value of the very type of a field or parameter does for it. -/
theorem popForField_run (field : FieldType) :
    popForField field ⟨locals, VType.ofFieldType field :: stack⟩ = .ok ((), ⟨locals, stack⟩) := by
  cases field with
  | base base => simp [popForField]
  | ref ref => simp [popForField, popReference_run (VType.isReference_ofFieldType ref)]

theorem popForField_reference (field : RefType) (reference : type.isReference = true) :
    popForField (.ref field) ⟨locals, type :: stack⟩ = .ok ((), ⟨locals, stack⟩) := by
  simp [popForField, popReference_run reference]

/-- A type as it is when one type is replaced by another. -/
def replaced (old new type : VType) : VType := if type = old then new else type

@[simp] theorem replaceAll_run (old new : VType) :
    replaceAll old new ⟨locals, stack⟩ =
      .ok ((), ⟨locals.map (replaced old new), stack.map (replaced old new)⟩) := rfl

/-- The parameter can be given a value of the type. -/
def Takes (parameter : FieldType) (type : VType) : Prop :=
  ∀ locals stack, popForField parameter ⟨locals, type :: stack⟩ = .ok ((), ⟨locals, stack⟩)

theorem takes_own (parameter : FieldType) : Takes parameter (VType.ofFieldType parameter) :=
  fun _ _ => popForField_run parameter

theorem takes_reference (parameter : RefType) (reference : type.isReference = true) :
    Takes (.ref parameter) type :=
  fun _ _ => popForField_reference parameter reference

/-- Arguments are listed from the top of the stack, so the last one comes first. -/
theorem popArguments_run {parameters : List FieldType} {arguments : List VType}
    (fit : List.Forall₂ Takes parameters.reverse arguments) :
    popArguments parameters ⟨locals, arguments ++ stack⟩ = .ok ((), ⟨locals, stack⟩) := by
  unfold popArguments
  generalize parameters.reverse = reversed at fit ⊢
  induction fit with
  | nil => rfl
  | cons taken _ ih => simpa [taken _ _] using ih

theorem pushResult_run (result : Option FieldType) :
    pushResult result ⟨locals, stack⟩ =
      .ok ((), ⟨locals, (result.map VType.ofFieldType).toList ++ stack⟩) := by
  cases result <;> rfl

theorem replaced_getElem? {old new : VType} {index : Nat} (found : locals[index]? = some type) :
    (locals.map (replaced old new))[index]? = some (replaced old new type) := by
  rw [List.getElem?_map, found, Option.map_some]

theorem replaced_reference {old new : VType} (isNew : new.isReference = true)
    (reference : type.isReference = true) : (replaced old new type).isReference = true := by
  unfold replaced
  split
  · exact isNew
  · exact reference

end FrameM

namespace VFrame

open FrameM

variable {thisClass : BinaryName} {position : Nat} {locals stack : List VType} {slot : UInt16}
  {type other third : VType}

-- each lemma below unfolds its instruction down to what is popped and pushed
attribute [local simp] instruction plain stackOp onClass invoke

/-- An instruction turns a frame into another if its action does. -/
theorem execute_of_run {step : SymInstruction} {before after : VFrame}
    (run : FrameM.instruction thisClass position step before = .ok ((), after)) :
    before.execute thisClass position step = .ok after := by
  rw [execute, run]
  rfl

section Locals

theorem execute_loadReference (found : locals[slot.toNat]? = some type)
    (reference : type.isReference = true) :
    execute ⟨locals, stack⟩ thisClass position (.load .reference slot) =
      .ok ⟨locals, type :: stack⟩ :=
  execute_of_run (by simp [load, SlotKind.primitive?, getLocal_run found, reference])

theorem execute_loadPrimitive {kind : SlotKind} (primitive : kind.primitive? = some type)
    (found : locals[slot.toNat]? = some type) :
    execute ⟨locals, stack⟩ thisClass position (.load kind slot) =
      .ok ⟨locals, type :: stack⟩ :=
  execute_of_run (by simp [load, primitive, expectLocal_run found])

theorem execute_storeReference (reference : type.isReference = true) :
    execute ⟨locals, type :: stack⟩ thisClass position (.store .reference slot) =
      .ok ⟨storeLocal locals slot.toNat type, stack⟩ :=
  execute_of_run (by simp [store, SlotKind.primitive?, popReference_run reference])

theorem execute_storePrimitive {kind : SlotKind} (primitive : kind.primitive? = some type) :
    execute ⟨locals, type :: stack⟩ thisClass position (.store kind slot) =
      .ok ⟨storeLocal locals slot.toNat type, stack⟩ :=
  execute_of_run (by simp [store, primitive])

theorem execute_increment {amount : Int16} (found : locals[slot.toNat]? = some .integer) :
    execute ⟨locals, stack⟩ thisClass position (.increment slot amount) = .ok ⟨locals, stack⟩ :=
  execute_of_run (expectLocal_run found)

end Locals

section Stack

theorem execute_push (constant : SmallConstant) :
    execute ⟨locals, stack⟩ thisClass position (.plain (.push constant)) =
      .ok ⟨locals, constant.type :: stack⟩ :=
  execute_of_run rfl

theorem execute_pop (single : type.width = 1) :
    execute ⟨locals, type :: stack⟩ thisClass position (.plain (.stack .pop)) =
      .ok ⟨locals, stack⟩ :=
  execute_of_run (by simp [popSingle_run single])

theorem execute_dup (single : type.width = 1) :
    execute ⟨locals, type :: stack⟩ thisClass position (.plain (.stack .dup)) =
      .ok ⟨locals, type :: type :: stack⟩ :=
  execute_of_run (by simp [popSingle_run single])

theorem execute_swap (single : type.width = 1) (otherSingle : other.width = 1) :
    execute ⟨locals, type :: other :: stack⟩ thisClass position (.plain (.stack .swap)) =
      .ok ⟨locals, other :: type :: stack⟩ :=
  execute_of_run (by
    simp [popSingle_run single, popSingle_run otherSingle])

theorem execute_dupX1 (single : type.width = 1) (otherSingle : other.width = 1) :
    execute ⟨locals, type :: other :: stack⟩ thisClass position (.plain (.stack .dupX1)) =
      .ok ⟨locals, type :: other :: type :: stack⟩ :=
  execute_of_run (by
    simp [popSingle_run single, popSingle_run otherSingle])

/-- Under a value of two slots. -/
theorem execute_dupX2_wide (single : type.width = 1) (wide : other.width = 2) :
    execute ⟨locals, type :: other :: stack⟩ thisClass position (.plain (.stack .dupX2)) =
      .ok ⟨locals, type :: other :: type :: stack⟩ :=
  execute_of_run (by simp [popSingle_run single, wide])

/-- Under two values of one slot each. -/
theorem execute_dupX2 (single : type.width = 1) (otherSingle : other.width = 1)
    (thirdSingle : third.width = 1) :
    execute ⟨locals, type :: other :: third :: stack⟩ thisClass position
        (.plain (.stack .dupX2)) =
      .ok ⟨locals, type :: other :: third :: type :: stack⟩ :=
  execute_of_run (by
    simp [popSingle_run single, popSingle_run thirdSingle,
      otherSingle])

end Stack

section Arrays

theorem execute_newArray (element : RefType) :
    execute ⟨locals, .integer :: stack⟩ thisClass position (.onClass .newArray element) =
      .ok ⟨locals, .object (.arrayOf (.ref element)) :: stack⟩ :=
  execute_of_run (by simp [convert])

theorem execute_arrayLength {array : RefType} (isArray : array.isArray = true) :
    execute ⟨locals, .object array :: stack⟩ thisClass position (.plain .arrayLength) =
      .ok ⟨locals, .integer :: stack⟩ := by
  cases array with
  | object => cases isArray
  | array => exact execute_of_run (by simp [popArray])

theorem execute_arrayLoad {array element : RefType}
    (isElement : array.elementType? = some (.ref element)) :
    execute ⟨locals, .integer :: .object array :: stack⟩ thisClass position
        (.plain (.arrayLoad .reference)) =
      .ok ⟨locals, .object element :: stack⟩ := by
  cases array with
  | object => cases isElement
  | array =>
    exact execute_of_run (by
      simp [popArray, ElementKind.primitive?, pushElement, isElement])

theorem execute_arrayStore {array : RefType} (isArray : array.isArray = true)
    (reference : type.isReference = true) :
    execute ⟨locals, type :: .integer :: .object array :: stack⟩ thisClass position
        (.plain (.arrayStore .reference)) =
      .ok ⟨locals, stack⟩ := by
  cases array with
  | object => cases isArray
  | array =>
    exact execute_of_run (by
      simp [popArray, ElementKind.primitive?, popReference_run reference])

end Arrays

section Objects

theorem execute_getStatic (field : FieldRef) :
    execute ⟨locals, stack⟩ thisClass position (.field .getStatic field) =
      .ok ⟨locals, VType.ofFieldType field.type :: stack⟩ :=
  execute_of_run rfl

theorem execute_putField {field : FieldRef} {fieldType : RefType}
    (isType : field.type = .ref fieldType) (reference : type.isReference = true)
    (receiver : other.isReference = true) :
    execute ⟨locals, type :: other :: stack⟩ thisClass position (.field .putField field) =
      .ok ⟨locals, stack⟩ :=
  execute_of_run (by
    simp [FrameM.field, isType, popForField_reference fieldType reference,
      popReference_run receiver])

theorem execute_checkCast (reference : type.isReference = true) (expected : RefType) :
    execute ⟨locals, type :: stack⟩ thisClass position (.onClass .checkCast expected) =
      .ok ⟨locals, .object expected :: stack⟩ :=
  execute_of_run (by simp [popReference_run reference])

theorem execute_new (name : BinaryName) :
    execute ⟨locals, stack⟩ thisClass position (.onClass .new (.object name)) =
      .ok ⟨locals, .uninitialized position :: stack⟩ :=
  execute_of_run rfl

end Objects

section Calls

variable {method : MethodRef} {arguments : List VType}

theorem execute_invokeStatic
    (fit : List.Forall₂ Takes method.descriptor.parameters.reverse arguments) :
    execute ⟨locals, arguments ++ stack⟩ thisClass position (.invoke .static method) =
      .ok ⟨locals, (method.descriptor.result.map VType.ofFieldType).toList ++ stack⟩ :=
  execute_of_run (by simp [popArguments_run fit, pushResult_run])

theorem execute_invokeVirtual
    (fit : List.Forall₂ Takes method.descriptor.parameters.reverse arguments)
    (receiver : type.isReference = true) :
    execute ⟨locals, arguments ++ type :: stack⟩ thisClass position (.invoke .virtual method) =
      .ok ⟨locals, (method.descriptor.result.map VType.ofFieldType).toList ++ stack⟩ :=
  execute_of_run (by
    simp [popArguments_run fit, popReference_run receiver, pushResult_run])

theorem execute_invokeGetter (noParameters : method.descriptor.parameters = [])
    (receiver : type.isReference = true) :
    execute ⟨locals, type :: stack⟩ thisClass position (.invoke .virtual method) =
      .ok ⟨locals, (method.descriptor.result.map VType.ofFieldType).toList ++ stack⟩ := by
  have fit : List.Forall₂ Takes method.descriptor.parameters.reverse [] := by
    rw [noParameters]
    exact .nil
  exact execute_invokeVirtual fit receiver

/-- A constructor that is called on a new object. -/
theorem execute_construct {source : Nat} (isConstructor : method.isConstructor = true)
    (noResult : method.descriptor.result = none)
    (fit : List.Forall₂ Takes method.descriptor.parameters.reverse arguments) :
    execute ⟨locals, arguments ++ .uninitialized source :: stack⟩ thisClass position
        (.invoke .special method) =
      .ok ⟨locals.map (replaced (.uninitialized source) (.object method.owner)),
        stack.map (replaced (.uninitialized source) (.object method.owner))⟩ :=
  execute_of_run (by
    simp [popArguments_run fit, isConstructor, construct, noResult])

end Calls

end VFrame

end ClassWeave
