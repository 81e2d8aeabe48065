import ClassWeave.Code.Assembly
import ClassWeave.Proofs.Constant.Growth

/-!
# Constants that are there already

When all that code needs is among the constants of a class, nothing is added, and every operand gets
the slot that it has.
-/

namespace ClassWeave

namespace ConstantTable

variable (table : ConstantTable)

def classSlot? (name : String) : Option ConstantIndex := do
  table.slotOf? (.classRef (← table.slotOf? (.utf8 name)))

def signatureSlot? (name : UnqualifiedName) (descriptor : String) : Option ConstantIndex := do
  let name ← table.slotOf? (.utf8 name.text)
  table.slotOf? (.nameAndType name (← table.slotOf? (.utf8 descriptor)))

def loadableSlot? : Loadable → Option ConstantIndex
  | .string text => do table.slotOf? (.string (← table.slotOf? (.utf8 text)))
  | .int value => table.slotOf? (.integer value)
  | .float bits => table.slotOf? (.float bits)
  | .long value => table.slotOf? (.long value)
  | .double bits => table.slotOf? (.double bits)
  | .classRef type => table.classSlot? type.className
  | .methodType index | .methodHandle index | .dynamic index _ => some index

def fieldSlot? (field : FieldRef) : Option ConstantIndex := do
  let owner ← table.classSlot? field.owner.text
  table.slotOf? (.fieldRef owner (← table.signatureSlot? field.name field.type.render))

def methodSlot? (method : MethodRef) : Option ConstantIndex := do
  let owner ← table.classSlot? method.owner.className
  let signature ← table.signatureSlot? method.name method.descriptor.render
  table.slotOf? (.methodRef owner signature method.isInterface)

/-- The slot of an operand whose constants are all there. -/
def operandSlot? : (kind : OperandKind) → Symbolic kind → Option ConstantIndex
  | .classRef, type => table.classSlot? type.className
  | .loadable, constant => table.loadableSlot? constant
  | .field, field => table.fieldSlot? field
  | .method, method => table.methodSlot? method
  | .callSite, site => some site.index

end ConstantTable

/-- An action finds everything in the constants of a class, and leaves them as they are. -/
def PoolM.Finds {α : Type} (table : ConstantTable) (action : PoolM α) (value : α) : Prop :=
  Yields action (.ofTable table) value (.ofTable table)

namespace PoolM.Finds

variable {α β : Type} {table : ConstantTable}

theorem pure (value : α) : Finds table (pure value) value := rfl

theorem lift {outcome : Except Fault α} {value : α} (done : outcome = .ok value) :
    Finds table (liftM outcome) value := yields_lift.mpr ⟨done, rfl⟩

theorem bind {action : PoolM α} {next : α → PoolM β} {value : α} {result : β}
    (first : Finds table action value) (later : Finds table (next value) result) :
    Finds table (action >>= next) result := yields_bind.mpr ⟨value, _, first, later⟩

theorem map {action : PoolM α} {value : α} (finds : Finds table action value) (change : α → β) :
    Finds table (change <$> action) (change value) := yields_map.mpr ⟨value, finds, rfl⟩

/-- What is found of each element is found of the list. -/
theorem mapM {action : α → PoolM β} {known : α → Option β}
    (each : ∀ {value result}, known value = some result → Finds table (action value) result)
    {values : List α} {results : List β} (all : values.mapM known = some results) :
    Finds table (values.mapM action) results := by
  induction values generalizing results with
  | nil =>
    cases all
    exact pure []
  | cons value rest ih =>
    rw [List.mapM_cons] at all ⊢
    obtain ⟨first, firstKnown, all⟩ := Option.bind_eq_some_iff.mp all
    obtain ⟨others, othersKnown, all⟩ := Option.bind_eq_some_iff.mp all
    cases all
    exact (each firstKnown).bind ((ih othersKnown).bind (pure _))

theorem intern {constant : Constant} {index : ConstantIndex}
    (known : table.slotOf? constant = some index) : Finds table (intern constant) index := by
  simp only [Finds, Yields, PoolM.intern, Pool.intern, Pool.ofTable_firstSlot, known]

theorem className {name : String} {index : ConstantIndex}
    (known : table.classSlot? name = some index) : Finds table (className name) index := by
  obtain ⟨text, textKnown, known⟩ := Option.bind_eq_some_iff.mp known
  exact (intern textKnown).bind (intern known)

theorem nameAndType {name : UnqualifiedName} {descriptor : String} {index : ConstantIndex}
    (known : table.signatureSlot? name descriptor = some index) :
    Finds table (nameAndType name descriptor) index := by
  obtain ⟨text, textKnown, known⟩ := Option.bind_eq_some_iff.mp known
  obtain ⟨type, typeKnown, known⟩ := Option.bind_eq_some_iff.mp known
  exact (intern textKnown).bind ((intern typeKnown).bind (intern known))

theorem loadable {constant : Loadable} {index : ConstantIndex}
    (known : table.loadableSlot? constant = some index) :
    Finds table (loadable constant) index := by
  cases constant with
  | string text =>
    obtain ⟨slot, textKnown, known⟩ := Option.bind_eq_some_iff.mp known
    exact (intern textKnown).bind (intern known)
  | int | float | long | double => exact intern known
  | classRef type => exact className known
  | methodType | methodHandle | dynamic =>
    cases known
    exact pure _

theorem operand {kind : OperandKind} {operand : Symbolic kind} {index : ConstantIndex}
    (known : table.operandSlot? kind operand = some index) :
    Finds table (PoolM.operand kind operand) index := by
  cases kind with
  | classRef => exact className known
  | loadable => exact loadable known
  | field =>
    obtain ⟨owner, ownerKnown, known⟩ := Option.bind_eq_some_iff.mp known
    obtain ⟨signature, signatureKnown, known⟩ := Option.bind_eq_some_iff.mp known
    exact (className ownerKnown).bind ((nameAndType signatureKnown).bind (intern known))
  | method =>
    obtain ⟨owner, ownerKnown, known⟩ := Option.bind_eq_some_iff.mp known
    obtain ⟨signature, signatureKnown, known⟩ := Option.bind_eq_some_iff.mp known
    exact (className ownerKnown).bind ((nameAndType signatureKnown).bind (intern known))
  | callSite =>
    cases known
    exact pure _

theorem instruction {step : SymInstruction} {found : PoolInstruction}
    (known : step.mapM table.operandSlot? = some found) :
    Finds table (step.mapM PoolM.operand) found := by
  cases step with
  | loadConstant | loadWideConstant | field | invoke | onClass | newMultiArray =>
    obtain ⟨index, operandKnown, rfl⟩ := Option.map_eq_some_iff.mp known
    exact (operand operandKnown).map _
  | _ =>
    cases known
    exact pure _

end PoolM.Finds

namespace Assembly

/-- A live item with its operands among the constants of a class. -/
def knownPart? (table : ConstantTable) (typing : Typing) (item : Item) (position : Nat) :
    Option Part :=
  if typing.isReachable position then
    match item with
    | .instruction step => (step.mapM table.operandSlot?).map fun found => ⟨item, true, some found⟩
    | _ => some ⟨item, true, none⟩
  else none

theorem part_finds {table : ConstantTable} {typing : Typing} {item : Item} {position : Nat}
    {result : Part} (known : knownPart? table typing item position = some result) :
    PoolM.Finds table (part typing item position) result := by
  unfold knownPart? at known
  unfold part
  split at known
  · rename_i live
    simp only [live, if_true]
    cases item with
    | instruction step =>
      obtain ⟨found, instructionKnown, rfl⟩ := Option.map_eq_some_iff.mp known
      exact (PoolM.Finds.instruction instructionKnown).bind (.pure _)
    | _ =>
      cases known
      exact .pure _
  · cases known

theorem parts_find {table : ConstantTable} {typing : Typing} {items : List Item}
    {parts : List Part}
    (known : (items.zipIdx.mapM fun entry => knownPart? table typing entry.1 entry.2) = some parts) :
    PoolM.Finds table (items.zipIdx.mapM fun (item, position) => part typing item position)
      parts :=
  PoolM.Finds.mapM part_finds known

end Assembly

end ClassWeave
