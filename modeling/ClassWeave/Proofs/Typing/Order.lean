import Mathlib.Data.List.Forall2
import ClassWeave.Typing.Frame
import ClassWeave.Typing.Hierarchy

/-!
# The order of types

One type is below another if its values can be used as values of the other. Frames are compared
value by value. Merging two frames leads to one that is above both, as long as the hierarchy is an
order and its answers are common superclasses.
-/

namespace ClassWeave

namespace RefType

theorem arrayOf_elementType (element : FieldType) :
    (RefType.arrayOf element).elementType? = some element := by
  match element with
  | .base _ => rfl
  | .ref (.object _) => rfl
  | .ref (.array _ _) => rfl

theorem isArray_arrayOf (element : FieldType) :
    ∃ extra component, RefType.arrayOf element = .array extra component := by
  match element with
  | .base type => exact ⟨0, .base type, rfl⟩
  | .ref (.object name) => exact ⟨0, .object name, rfl⟩
  | .ref (.array extra component) => exact ⟨extra + 1, component, rfl⟩

/-- Arrays are told apart by their elements. -/
theorem array_of_elementType {extra extra' : Nat} {component component' : Component}
    (same : (array extra component).elementType? = (array extra' component').elementType?) :
    array extra component = array extra' component' := by
  cases extra <;> cases extra' <;> cases component <;> cases component' <;>
    simp_all [elementType?, FieldType.object]

end RefType

theorem forall₂_comp {α β γ : Type} {early : α → β → Prop} {late : β → γ → Prop}
    {whole : α → γ → Prop} {as : List α} {bs : List β} {cs : List γ} (first : List.Forall₂ early as bs)
    (second : List.Forall₂ late bs cs) (comp : ∀ a b c, early a b → late b c → whole a c) :
    List.Forall₂ whole as cs := by
  induction first generalizing cs with
  | nil =>
    cases second
    exact .nil
  | cons lower lowers ih =>
    cases second with
    | cons upper uppers => exact .cons (comp _ _ _ lower upper) (ih uppers)

theorem forall₂_getElem? {α β : Type} {related : α → β → Prop} {as : List α} {bs : List β}
    (all : List.Forall₂ related as bs) {index : Nat} {a : α} {b : β} (first : as[index]? = some a)
    (second : bs[index]? = some b) : related a b := by
  obtain ⟨inside, rfl⟩ := List.getElem?_eq_some_iff.mp first
  obtain ⟨alsoInside, rfl⟩ := List.getElem?_eq_some_iff.mp second
  exact all.get inside alsoInside

namespace Hierarchy

/-- Objects of one class can be used where the other class is expected. -/
def ClassBelow (hierarchy : Hierarchy) (sub sup : BinaryName) : Prop :=
  hierarchy.isSubclass sub sup = .ok true

/-- References of one type can be used where the other type is expected. -/
def ReferenceBelow (hierarchy : Hierarchy) (source target : RefType) : Prop :=
  hierarchy.isAssignable source target = .ok true

/-- What a hierarchy of classes is like: an order with the root on top, in which the two interfaces
of all arrays have nothing else above them. It need not know every class, but the superclasses that
it answers with are shared. -/
structure Lawful (hierarchy : Hierarchy) : Prop where
  trans {a b c : BinaryName} :
    hierarchy.ClassBelow a b → hierarchy.ClassBelow b c → hierarchy.ClassBelow a c
  antisymm {a b : BinaryName} : hierarchy.ClassBelow a b → hierarchy.ClassBelow b a → a = b
  above_cloneable {c : BinaryName} :
    hierarchy.ClassBelow .cloneable c → c = .cloneable ∨ c = .object
  above_serializable {c : BinaryName} :
    hierarchy.ClassBelow .serializable c → c = .serializable ∨ c = .object
  common {a b c : BinaryName} : hierarchy.commonSuperclass a b = .ok c →
    hierarchy.ClassBelow a c ∧ hierarchy.ClassBelow b c

variable {hierarchy : Hierarchy}

attribute [local simp] isAssignable

theorem ClassBelow.refl (name : BinaryName) : hierarchy.ClassBelow name name := by
  simp [ClassBelow, isSubclass]

theorem ClassBelow.root (name : BinaryName) : hierarchy.ClassBelow name .object := by
  simp [ClassBelow, isSubclass]

theorem Lawful.above_root (lawful : hierarchy.Lawful) {c : BinaryName}
    (below : hierarchy.ClassBelow .object c) : c = .object :=
  lawful.antisymm (ClassBelow.root c) below

/-- The classes that arrays can be used as are closed upwards. -/
theorem Lawful.above_array (lawful : hierarchy.Lawful) {b c : BinaryName}
    (array : b = .object ∨ b = .cloneable ∨ b = .serializable)
    (below : hierarchy.ClassBelow b c) : c = .object ∨ c = .cloneable ∨ c = .serializable := by
  rcases array with rfl | rfl | rfl
  · exact .inl (lawful.above_root below)
  · rcases lawful.above_cloneable below with same | root
    · exact .inr (.inl same)
    · exact .inl root
  · rcases lawful.above_serializable below with same | root
    · exact .inr (.inr same)
    · exact .inl root

theorem referenceBelow_object {a b : BinaryName} :
    hierarchy.ReferenceBelow (.object a) (.object b) ↔ hierarchy.ClassBelow a b := by
  rw [ReferenceBelow, isAssignable, ClassBelow]

theorem referenceBelow_array_object {extra : Nat} {component : Component} {target : BinaryName} :
    hierarchy.ReferenceBelow (.array extra component) (.object target) ↔
      target = .object ∨ target = .cloneable ∨ target = .serializable := by
  simp [ReferenceBelow]

theorem not_referenceBelow_object_array {name : BinaryName} {extra : Nat}
    {component : Component} : ¬ hierarchy.ReferenceBelow (.object name) (.array extra component) := by
  simp [ReferenceBelow]

/-- An array of references is below another if its elements are. -/
theorem referenceBelow_elements {extra extra' : Nat} {component component' : Component}
    {source target : RefType} (sourceElement : (RefType.array extra component).elementType? =
      some (.ref source))
    (targetElement : (RefType.array extra' component').elementType? = some (.ref target)) :
    hierarchy.ReferenceBelow (.array extra component) (.array extra' component') ↔
      hierarchy.ReferenceBelow source target := by
  rw [ReferenceBelow, isAssignable]
  split
  · rename_i sourceFound targetFound
    rw [sourceElement] at sourceFound
    rw [targetElement] at targetFound
    cases sourceFound
    cases targetFound
    rfl
  · rename_i unmatched
    exact absurd targetElement (unmatched source target sourceElement)

theorem ReferenceBelow.refl (type : RefType) : hierarchy.ReferenceBelow type type := by
  cases type with
  | object name => exact referenceBelow_object.mpr (.refl name)
  | array extra component =>
    induction extra with
    | zero =>
      cases component with
      | base type => simp [ReferenceBelow, RefType.elementType?]
      | object name =>
        have element : (RefType.array 0 (.object name)).elementType? =
            some (.ref (.object name)) := rfl
        exact (referenceBelow_elements element element).mpr (referenceBelow_object.mpr (.refl name))
    | succ extra ih => exact (referenceBelow_elements rfl rfl).mpr ih

theorem ReferenceBelow.root (type : RefType) :
    hierarchy.ReferenceBelow type (.object .object) := by
  cases type with
  | object name => exact referenceBelow_object.mpr (.root name)
  | array extra component => exact referenceBelow_array_object.mpr (.inl rfl)

/-- Arrays that are comparable either have comparable references in them, or are the same. -/
theorem referenceBelow_array_cases {extra extra' : Nat} {component component' : Component}
    (below : hierarchy.ReferenceBelow (.array extra component) (.array extra' component')) :
    (∃ source target, (RefType.array extra component).elementType? = some (.ref source) ∧
      (RefType.array extra' component').elementType? = some (.ref target) ∧
      hierarchy.ReferenceBelow source target) ∨
    RefType.array extra component = .array extra' component' := by
  rw [ReferenceBelow, isAssignable] at below
  split at below
  · rename_i source target sourceFound targetFound
    exact .inl ⟨source, target, sourceFound, targetFound, below⟩
  · right
    exact RefType.array_of_elementType (by simpa using below)

theorem Lawful.referenceBelow_trans (lawful : hierarchy.Lawful) {a b c : RefType}
    (first : hierarchy.ReferenceBelow a b) (second : hierarchy.ReferenceBelow b c) :
    hierarchy.ReferenceBelow a c := by
  match a, b, c with
  | .object a, .object b, .object c =>
    exact referenceBelow_object.mpr (lawful.trans (referenceBelow_object.mp first)
      (referenceBelow_object.mp second))
  | .object _, .object _, .array _ _ => exact (not_referenceBelow_object_array second).elim
  | .object _, .array _ _, _ => exact (not_referenceBelow_object_array first).elim
  | .array _ _, .object b, .object c =>
    exact referenceBelow_array_object.mpr (lawful.above_array
      (referenceBelow_array_object.mp first) (referenceBelow_object.mp second))
  | .array _ _, .object _, .array _ _ => exact (not_referenceBelow_object_array second).elim
  | .array _ _, .array _ _, .object _ =>
    exact referenceBelow_array_object.mpr (referenceBelow_array_object.mp second)
  | .array extra component, .array extra' component', .array extra'' component'' =>
    rcases referenceBelow_array_cases first with ⟨source, middle, sourceFound, middleFound, lower⟩ |
      same
    · rcases referenceBelow_array_cases second with
        ⟨middle', target, middleFound', targetFound, upper⟩ | same
      · rw [middleFound] at middleFound'
        cases middleFound'
        have smaller := RefType.dimensions_elementType sourceFound
        exact (referenceBelow_elements sourceFound targetFound).mpr
          (lawful.referenceBelow_trans lower upper)
      · rwa [same] at first
    · rwa [← same] at second
termination_by a.dimensions

/-- Values of one type can be used as values of the other. -/
inductive TypeBelow (hierarchy : Hierarchy) : VType → VType → Prop where
  | same {type : VType} : TypeBelow hierarchy type type
  | null {type : RefType} : TypeBelow hierarchy .null (.object type)
  | object {source target : RefType} (below : hierarchy.ReferenceBelow source target) :
      TypeBelow hierarchy (.object source) (.object target)

theorem TypeBelow.reference {source target : RefType}
    (below : hierarchy.TypeBelow (.object source) (.object target)) :
    hierarchy.ReferenceBelow source target := by
  cases below with
  | same => exact .refl source
  | object below => exact below

/-- A local may be left unused, whatever is in it. -/
def LocalBelow (hierarchy : Hierarchy) (source target : VType) : Prop :=
  target = .top ∨ hierarchy.TypeBelow source target

/-- Wherever the upper frame holds, the lower one does as well. Locals past the end of a frame are
unusable. -/
structure FrameBelow (hierarchy : Hierarchy) (lower upper : VFrame) : Prop where
  stack : List.Forall₂ hierarchy.TypeBelow lower.stack upper.stack
  locals (slot : Nat) :
    hierarchy.LocalBelow (lower.locals.getD slot .top) (upper.locals.getD slot .top)

/-- Frames with the same locals compare by their stacks. -/
theorem FrameBelow.ofStack {locals lower upper : List VType}
    (stack : List.Forall₂ hierarchy.TypeBelow lower upper) :
    hierarchy.FrameBelow ⟨locals, lower⟩ ⟨locals, upper⟩ :=
  ⟨stack, fun _ => .inr .same⟩

theorem Lawful.typeBelow_trans (lawful : hierarchy.Lawful) {a b c : VType}
    (first : hierarchy.TypeBelow a b) (second : hierarchy.TypeBelow b c) :
    hierarchy.TypeBelow a c := by
  cases first with
  | same => exact second
  | null =>
    cases second with
    | same | object => exact .null
  | object lower =>
    cases second with
    | same => exact .object lower
    | object upper => exact .object (lawful.referenceBelow_trans lower upper)

theorem Lawful.localBelow_trans (lawful : hierarchy.Lawful) {a b c : VType}
    (first : hierarchy.LocalBelow a b) (second : hierarchy.LocalBelow b c) :
    hierarchy.LocalBelow a c := by
  rcases second with unused | upper
  · exact .inl unused
  · rcases first with unused | lower
    · subst unused
      cases upper
      exact .inl rfl
    · exact .inr (lawful.typeBelow_trans lower upper)

theorem FrameBelow.refl (frame : VFrame) : hierarchy.FrameBelow frame frame where
  stack := List.forall₂_same.mpr fun _ _ => .same
  locals _ := .inr .same

theorem Lawful.frameBelow_trans (lawful : hierarchy.Lawful) {a b c : VFrame}
    (first : hierarchy.FrameBelow a b) (second : hierarchy.FrameBelow b c) :
    hierarchy.FrameBelow a c where
  stack := forall₂_comp first.stack second.stack fun _ _ _ => lawful.typeBelow_trans
  locals slot := lawful.localBelow_trans (first.locals slot) (second.locals slot)

/-- The hierarchy in which every class comes right below the root. -/
def flat : Hierarchy := ⟨fun a b => .ok (if a = b then a else .object)⟩

theorem flat_classBelow {a b : BinaryName} : flat.ClassBelow a b ↔ a = b ∨ b = .object := by
  simp only [ClassBelow, isSubclass]
  split
  · rename_i settled
    simp [settled]
  · rename_i unsettled
    obtain ⟨different, lower⟩ := not_or.mp unsettled
    simp [flat, Functor.map, Except.map, different, lower, Ne.symm different, Ne.symm lower]

theorem flat_lawful : flat.Lawful where
  trans first second := by
    simp only [flat_classBelow] at *
    grind
  antisymm first second := by
    simp only [flat_classBelow] at *
    grind
  above_cloneable below := (flat_classBelow.mp below).imp_left Eq.symm
  above_serializable below := (flat_classBelow.mp below).imp_left Eq.symm
  common found := by
    cases found
    simp only [flat_classBelow]
    split
    · rename_i same
      exact ⟨.inl rfl, .inl same.symm⟩
    · exact ⟨.inr rfl, .inr rfl⟩

end Hierarchy

end ClassWeave
