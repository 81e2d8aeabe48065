import ClassWeave.Proofs.Typing.Initialized
import ClassWeave.Proofs.Typing.Keeping
import ClassWeave.Proofs.Typing.Steps

/-!
# Stacks that items leave

How the instructions of hooks move references about, whatever the classes of the objects: an item that
finds a stack like one leaves a stack like another.
-/

namespace ClassWeave

namespace VType

variable {first second : VType}

theorem Alike.width_eq (alike : Alike first second) : first.width = second.width := by
  rcases alike with rfl | ⟨firstDone, secondDone⟩
  · rfl
  · rw [width_of_isReference (isReference_of_isInitialized firstDone),
      width_of_isReference (isReference_of_isInitialized secondDone)]

/-- Only what is initialized can change its class. -/
theorem Alike.eq_of_uninitialized (alike : Alike first second)
    (uninitialized : first.isInitialized = false) : first = second := by
  rcases alike with same | ⟨initialized, -⟩
  · exact same
  · cases initialized.symm.trans uninitialized

/-- A parameter takes any reference, or primitives of its own type. -/
def Suits (parameter : FieldType) (type : VType) : Prop :=
  match parameter with
  | .ref _ => type.isReference = true
  | .base base => type = ofFieldType (.base base)

/-- A relation between types that the instructions of hooks do not look behind. -/
structure Resembles (related : VType → VType → Prop) : Prop where
  refl (type : VType) : related type type
  width_eq {first second : VType} : related first second → first.width = second.width
  isReference_eq {first second : VType} :
    related first second → first.isReference = second.isReference
  eq_of_primitive {first second : VType} :
    related first second → first.isReference = false → first = second

theorem Alike.resembles : Resembles Alike where
  refl := .refl
  width_eq := Alike.width_eq
  isReference_eq := Alike.isReference_eq
  eq_of_primitive alike primitive := by
    rcases alike with same | ⟨initialized, -⟩
    · exact same
    · cases (isReference_of_isInitialized initialized).symm.trans primitive

theorem isReference_ofBase (base : BaseType) : (ofFieldType (.base base)).isReference = false := by
  cases base <;> rfl

theorem Suits.resembling {related : VType → VType → Prop} (resembles : Resembles related)
    {parameter : FieldType} (suits : Suits parameter first) (like : related first second) :
    Suits parameter second := by
  cases parameter with
  | ref => exact (resembles.isReference_eq like).symm.trans suits
  | base base =>
    cases suits
    exact (resembles.eq_of_primitive like (isReference_ofBase base)).symm

theorem Suits.takes {parameter : FieldType} (suits : Suits parameter first) :
    FrameM.Takes parameter first := by
  cases parameter with
  | ref type => exact FrameM.takes_reference type suits
  | base base =>
    cases suits
    exact FrameM.takes_own _

end VType

namespace FrameM

variable {before after : VFrame} {type expected : VType}

theorem stack_of_pop (done : pop before = .ok (type, after)) :
    before.stack = type :: after.stack := by
  obtain ⟨locals, stack⟩ := before
  cases stack with
  | nil => cases done
  | cons => cases done; rfl

theorem stack_of_popReference (done : popReference before = .ok (type, after)) :
    before.stack = type :: after.stack := by
  obtain ⟨⟨_, _⟩, popped, later⟩ := Outcome.bind_ok.mp done
  simp only at later
  split at later
  · cases later
    exact stack_of_pop popped
  · cases later

theorem stack_of_popExpecting (done : popExpecting expected before = .ok ((), after)) :
    before.stack = expected :: after.stack := by
  obtain ⟨⟨_, _⟩, popped, later⟩ := Outcome.bind_ok.mp done
  simp only at later
  split at later
  · rename_i same
    cases later
    exact same ▸ stack_of_pop popped
  · cases later

theorem stack_of_popArray (done : popArray before = .ok (type, after)) :
    before.stack = type :: after.stack := by
  obtain ⟨⟨_, _⟩, popped, later⟩ := Outcome.bind_ok.mp done
  simp only at later
  split at later
  · cases later
    exact stack_of_pop popped
  · cases later
    exact stack_of_pop popped
  · cases later

theorem getLocal_ok {slot : UInt16} (done : getLocal slot before = .ok (type, after)) :
    before.locals[slot.toNat]? = some type ∧ after = before := by
  unfold getLocal at done
  split at done
  · rename_i found
    cases done
    exact ⟨found, rfl⟩
  · cases done

end FrameM

/-- The kind of load works on locals of the type. -/
def SlotKind.Loads (kind : SlotKind) (type : VType) : Prop :=
  kind.primitive? = some type ∨ kind.primitive? = none ∧ type.isReference = true

/-- The local slots that a value of this kind takes. -/
def SlotKind.width : SlotKind → Nat
  | long | double => 2
  | int | float | reference => 1

theorem SlotKind.width_of_primitive {kind : SlotKind} {type : VType}
    (primitive : kind.primitive? = some type) : type.width = kind.width := by
  cases kind <;> cases primitive <;> rfl

theorem SlotKind.width_of_reference {kind : SlotKind} (reference : kind.primitive? = none) :
    kind.width = 1 := by
  cases kind <;> first | rfl | cases reference

theorem SlotKind.Loads.width_eq {kind : SlotKind} {type : VType} (loads : kind.Loads type) :
    type.width = kind.width := by
  rcases loads with primitive | ⟨other, reference⟩
  · exact width_of_primitive primitive
  · rw [VType.width_of_isReference reference, width_of_reference other]

theorem SlotKind.Loads.ne_top {kind : SlotKind} {type : VType} (loads : kind.Loads type) :
    type ≠ .top := by
  rintro rfl
  rcases loads with primitive | ⟨-, reference⟩
  · cases kind <;> cases primitive
  · cases reference

namespace FrameM

variable {before after : VFrame} {kind : SlotKind} {slot : UInt16}

theorem isReference_of_popReference {type : VType}
    (done : popReference before = .ok (type, after)) : type.isReference = true := by
  obtain ⟨⟨popped, _⟩, -, later⟩ := Outcome.bind_ok.mp done
  simp only at later
  split at later
  · cases later
    assumption
  · cases later

/-- A load puts the type of the local on the stack. -/
theorem load_ok
    (done : load kind slot before = .ok ((), after)) :
    ∃ type : VType, kind.Loads type ∧ before.locals[slot.toNat]? = some type ∧
      after = ⟨before.locals, type :: before.stack⟩ := by
  unfold load at done
  cases primitive : kind.primitive? with
  | some type =>
    simp only [primitive] at done
    obtain ⟨⟨_, _⟩, checked, pushed⟩ := Outcome.bind_ok.mp done
    obtain ⟨⟨_, _⟩, got, later⟩ := Outcome.bind_ok.mp checked
    obtain ⟨found, rfl⟩ := getLocal_ok got
    simp only at later
    split at later
    · rename_i same
      cases later
      cases pushed
      exact ⟨type, .inl primitive, same ▸ found, rfl⟩
    · cases later
  | none =>
    simp only [primitive] at done
    obtain ⟨⟨type, _⟩, got, later⟩ := Outcome.bind_ok.mp done
    obtain ⟨found, rfl⟩ := getLocal_ok got
    simp only at later
    split at later
    · rename_i reference
      cases later
      exact ⟨type, .inr ⟨primitive, reference⟩, found, rfl⟩
    · cases later

/-- A store takes the value on top of the stack. -/
theorem store_ok (done : store kind slot before = .ok ((), after)) :
    ∃ type rest, kind.Loads type ∧ before.stack = type :: rest ∧
      after = ⟨storeLocal before.locals slot.toNat type, rest⟩ := by
  unfold store at done
  cases primitive : kind.primitive? with
  | some type =>
    simp only [primitive] at done
    obtain ⟨⟨_, popped⟩, ran, later⟩ := Outcome.bind_ok.mp done
    cases later
    exact ⟨type, popped.stack, .inl primitive, stack_of_popExpecting ran,
      by rw [← keeps_popExpecting type ran]⟩
  | none =>
    simp only [primitive] at done
    obtain ⟨⟨type, popped⟩, ran, later⟩ := Outcome.bind_ok.mp done
    cases later
    exact ⟨type, popped.stack, .inr ⟨primitive, isReference_of_popReference ran⟩,
      stack_of_popReference ran, by rw [← keeps_popReference ran]⟩

end FrameM

section Locals

variable {locals : List VType} {slot : Nat} {type : VType}

theorem getD_of_getElem? (found : locals[slot]? = some type) : locals.getD slot .top = type := by
  rw [List.getD_eq_getElem?_getD, found, Option.getD_some]

theorem getElem?_of_getD (usable : type ≠ .top)
    (holds : locals.getD slot .top = type) : locals[slot]? = some type := by
  cases found : locals[slot]? with
  | none =>
    rw [List.getD_eq_getElem?_getD, found] at holds
    exact (usable holds.symm).elim
  | some other => rw [← holds, getD_of_getElem? found]

end Locals

namespace VFrame

variable {before after : VFrame} {thisClass : BinaryName} {position : Nat}

/-- A load puts on the stack what is known to be in the local. -/
theorem load_of_execute {locals : List VType} {kind : SlotKind} {slot : UInt16}
    (alike : LocalsAlike locals before.locals)
    (done : before.execute thisClass position (.load kind slot) = .ok after) :
    ∃ type : VType, kind.Loads type ∧ VType.Alike (locals.getD slot.toNat .top) type ∧
      after = ⟨before.locals, type :: before.stack⟩ := by
  obtain ⟨type, loads, found, rfl⟩ := FrameM.load_ok (execute_ok.mp done)
  refine ⟨type, loads, ?_, rfl⟩
  have there : before.locals.getD slot.toNat .top = type := getD_of_getElem? found
  exact there ▸ (alike slot.toNat).resolve_left (there ▸ loads.ne_top)

/-- A local that a reference is loaded from holds one. -/
theorem isReference_of_load {locals : List VType} {slot : UInt16}
    (alike : LocalsAlike locals before.locals)
    (done : before.execute thisClass position (.load .reference slot) = .ok after) :
    (locals.getD slot.toNat .top).isReference = true := by
  obtain ⟨type, loads, known, -⟩ := load_of_execute alike done
  rcases loads with ⟨⟨⟩⟩ | ⟨-, reference⟩
  exact known.isReference_eq.trans reference

end VFrame

open FrameM VFrame

/-- Each reference that can be loaded from a local is related to what is known of the local. -/
def VFrame.RefersLike (related : VType → VType → Prop) (known locals : List VType) : Prop :=
  ∀ ⦃slot : UInt16⦄ ⦃type : VType⦄, locals[slot.toNat]? = some type → type.isReference = true →
    related (known.getD slot.toNat .top) type

theorem VFrame.LocalsAlike.refersLike {known locals : List VType}
    (alike : LocalsAlike known locals) : RefersLike VType.Alike known locals := by
  intro slot type found reference
  have there : locals.getD slot.toNat .top = type := getD_of_getElem? found
  refine there ▸ (alike slot.toNat).resolve_left ?_
  intro unused
  cases (there.symm.trans unused) ▸ reference

/-- With locals like these, an item that finds a stack like the first leaves a stack like the
second. -/
def Item.Shifts (related : VType → VType → Prop) (locals : List VType) (item : Item)
    (before after : List VType) : Prop :=
  ∀ ⦃method position frame passed⦄, RefersLike related locals frame.locals →
    List.Forall₂ related before frame.stack →
      FlowGraph.after method position frame item = .ok passed →
        List.Forall₂ related after passed.stack

namespace Item.Shifts

variable {related : VType → VType → Prop} {locals stack : List VType} {type other third : VType}

/-- What an instruction can only do in one way is seen on any frame with such a stack. -/
theorem of_execute {step : SymInstruction} {before after : List VType}
    (run : ∀ (thisClass : BinaryName) (position : Nat) {locals found : List VType},
      List.Forall₂ related before found →
        ∃ left, VFrame.execute ⟨locals, found⟩ thisClass position step = .ok ⟨locals, left⟩ ∧
          List.Forall₂ related after left) :
    Shifts related locals (.instruction step) before after := by
  intro method position frame passed _ like done
  obtain ⟨left, expected, leaves⟩ := run method.thisClass position like
  cases Except.ok.inj (expected.symm.trans done)
  exact leaves

theorem loadReference (slot : UInt16) :
    Shifts related locals (.instruction (.load .reference slot)) stack
      (locals.getD slot.toNat .top :: stack) := by
  intro method position frame passed refers like done
  have loaded : load .reference slot frame = .ok ((), passed) := execute_ok.mp done
  obtain ⟨type, loads, found, rfl⟩ := load_ok loaded
  rcases loads with ⟨⟨⟩⟩ | ⟨-, reference⟩
  exact .cons (refers found reference) like

variable (resembles : VType.Resembles related)

include resembles

theorem loadPrimitive {kind : SlotKind} (primitive : kind.primitive? = some type) (slot : UInt16) :
    Shifts related locals (.instruction (.load kind slot)) stack (type :: stack) := by
  intro method position frame passed _ like done
  have loaded : load kind slot frame = .ok ((), passed) := execute_ok.mp done
  obtain ⟨found, loads, -, rfl⟩ := load_ok loaded
  rcases loads with same | ⟨missing, -⟩
  · cases primitive.symm.trans same
    exact .cons (resembles.refl _) like
  · cases primitive.symm.trans missing

theorem getStatic {field : FieldRef} {fieldType : RefType} (isType : field.type = .ref fieldType) :
    Shifts related locals (.instruction (.field .getStatic field)) stack
      (.object fieldType :: stack) :=
  of_execute fun _ _ _ _ like =>
    ⟨_, execute_getStatic field, .cons (isType ▸ resembles.refl _) like⟩

theorem pop (single : type.width = 1) :
    Shifts related locals (.instruction (.plain (.stack .pop))) (type :: stack) stack := by
  refine of_execute fun _ _ _ _ like => ?_
  rcases like with _ | ⟨first, rest⟩
  exact ⟨_, execute_pop (resembles.width_eq first ▸ single), rest⟩

theorem swap (single : type.width = 1) (otherSingle : other.width = 1) :
    Shifts related locals (.instruction (.plain (.stack .swap))) (type :: other :: stack)
      (other :: type :: stack) := by
  refine of_execute fun _ _ _ _ like => ?_
  rcases like with _ | ⟨first, _ | ⟨second, rest⟩⟩
  exact ⟨_, execute_swap (resembles.width_eq first ▸ single)
    (resembles.width_eq second ▸ otherSingle), .cons second (.cons first rest)⟩

theorem dupX1 (single : type.width = 1) (otherSingle : other.width = 1) :
    Shifts related locals (.instruction (.plain (.stack .dupX1))) (type :: other :: stack)
      (type :: other :: type :: stack) := by
  refine of_execute fun _ _ _ _ like => ?_
  rcases like with _ | ⟨first, _ | ⟨second, rest⟩⟩
  exact ⟨_, execute_dupX1 (resembles.width_eq first ▸ single)
    (resembles.width_eq second ▸ otherSingle), .cons first (.cons second (.cons first rest))⟩

/-- Under a value of two slots. -/
theorem dupX2_wide (single : type.width = 1) (wide : other.width = 2) :
    Shifts related locals (.instruction (.plain (.stack .dupX2))) (type :: other :: stack)
      (type :: other :: type :: stack) := by
  refine of_execute fun _ _ _ _ like => ?_
  rcases like with _ | ⟨first, _ | ⟨second, rest⟩⟩
  exact ⟨_, execute_dupX2_wide (resembles.width_eq first ▸ single)
    (resembles.width_eq second ▸ wide), .cons first (.cons second (.cons first rest))⟩

/-- Under two values of one slot each. -/
theorem dupX2 (single : type.width = 1) (otherSingle : other.width = 1) (thirdSingle : third.width = 1) :
    Shifts related locals (.instruction (.plain (.stack .dupX2))) (type :: other :: third :: stack)
      (type :: other :: third :: type :: stack) := by
  refine of_execute fun _ _ _ _ like => ?_
  rcases like with _ | ⟨first, _ | ⟨second, _ | ⟨last, rest⟩⟩⟩
  exact ⟨_, execute_dupX2 (resembles.width_eq first ▸ single)
    (resembles.width_eq second ▸ otherSingle) (resembles.width_eq last ▸ thirdSingle),
    .cons first (.cons second (.cons last (.cons first rest)))⟩

theorem newArray (element : RefType) :
    Shifts related locals (.instruction (.onClass .newArray element)) (.integer :: stack)
      (.object (.arrayOf (.ref element)) :: stack) := by
  refine of_execute fun _ _ _ _ like => ?_
  rcases like with _ | ⟨first, rest⟩
  cases resembles.eq_of_primitive first rfl
  exact ⟨_, execute_newArray element, .cons (resembles.refl _) rest⟩

/-- A cast leaves its class, whatever it is applied to. -/
theorem checkCast (target : RefType) (reference : type.isReference = true) :
    Shifts related locals (.instruction (.onClass .checkCast target)) (type :: stack)
      (.object target :: stack) := by
  refine of_execute fun _ _ _ _ like => ?_
  rcases like with _ | ⟨first, rest⟩
  exact ⟨_, execute_checkCast ((resembles.isReference_eq first).symm.trans reference) target,
    .cons (resembles.refl _) rest⟩

omit resembles in
theorem arrayStore : Shifts related locals (.instruction (.plain (.arrayStore .reference)))
    (type :: other :: third :: stack) stack := by
  intro method position frame passed _ like done
  obtain ⟨⟨_, _⟩, value, later⟩ := Outcome.bind_ok.mp (execute_ok.mp done)
  obtain ⟨⟨_, _⟩, index, later⟩ := Outcome.bind_ok.mp later
  obtain ⟨⟨_, _⟩, array, same⟩ := Outcome.bind_ok.mp later
  cases same
  rw [stack_of_popReference value, stack_of_popExpecting index, stack_of_popArray array] at like
  rcases like with _ | ⟨-, _ | ⟨-, _ | ⟨-, rest⟩⟩⟩
  exact rest

/-- A static method takes its only argument. -/
theorem invokeStatic {method : MethodRef} {parameter : FieldType}
    (parameters : method.descriptor.parameters = [parameter]) (suits : VType.Suits parameter type) :
    Shifts related locals (.instruction (.invoke .static method)) (type :: stack)
      ((method.descriptor.result.map VType.ofFieldType).toList ++ stack) := by
  refine of_execute fun _ _ _ _ like => ?_
  cases like with
  | @cons _ found _ rest first above =>
    have fit : List.Forall₂ Takes method.descriptor.parameters.reverse [found] := by
      rw [parameters]
      exact .cons (suits.resembling resembles first).takes .nil
    exact ⟨_, execute_invokeStatic fit,
      List.rel_append (List.forall₂_same.mpr fun type _ => resembles.refl type) above⟩

/-- A method takes its arguments, the last one first, and the object below. -/
theorem invokeVirtual {method : MethodRef} {arguments : List VType}
    (suit : List.Forall₂ VType.Suits method.descriptor.parameters.reverse arguments)
    (receiver : type.isReference = true) :
    Shifts related locals (.instruction (.invoke .virtual method)) (arguments ++ type :: stack)
      ((method.descriptor.result.map VType.ofFieldType).toList ++ stack) := by
  refine of_execute fun _ _ _ found like => ?_
  have taken := List.forall₂_take arguments.length like
  have left := List.forall₂_drop arguments.length like
  rw [List.take_left] at taken
  rw [List.drop_left] at left
  have fit : List.Forall₂ Takes method.descriptor.parameters.reverse
      (found.take arguments.length) :=
    forall₂_comp suit taken fun _ _ _ suits like => (suits.resembling resembles like).takes
  rw [← List.take_append_drop arguments.length found]
  generalize found.take arguments.length = first, found.drop arguments.length = rest at fit left
  rcases left with _ | ⟨object, below⟩
  exact ⟨_, execute_invokeVirtual fit ((resembles.isReference_eq object).symm.trans receiver),
    List.rel_append (List.forall₂_same.mpr fun type _ => resembles.refl type) below⟩

omit resembles in
/-- A test for zero takes a number, wherever control goes. -/
theorem jumpIfZero (comparison : Comparison) (label : Label) :
    Shifts related locals (.branch (.jumpIf (.zero comparison) label)) (.integer :: stack) stack := by
  intro method position frame passed _ like done
  rw [stack_of_popExpecting (VFrame.executeBranch_ok.mp done)] at like
  rcases like with _ | ⟨-, rest⟩
  exact rest

end Item.Shifts

end ClassWeave
