import ClassWeave.Fault
import ClassWeave.Name.WellKnown

/-!
# Hierarchies

What typing needs to know of the classes: the closest superclass that two classes share. Arrays
follow from that, as an array of one class is an array of its superclasses.
-/

namespace ClassWeave

namespace RefType

def dimensions : RefType → Nat
  | object _ => 0
  | array extra _ => extra + 1

theorem dimensions_elementType {type element : RefType}
    (isElement : type.elementType? = some (.ref element)) :
    element.dimensions < type.dimensions := by
  cases type with
  | object name => simp [elementType?] at isElement
  | array extra component =>
    cases extra with
    | zero =>
      cases component with
      | base type => simp [elementType?] at isElement
      | object name =>
        simp only [elementType?, FieldType.object, Option.some.injEq, FieldType.ref.injEq]
          at isElement
        subst isElement
        simp [dimensions]
    | succ extra =>
      simp only [elementType?, Option.some.injEq, FieldType.ref.injEq] at isElement
      subst isElement
      simp [dimensions]

end RefType

/-- When one of the two classes is assignable to the other, the other is their common superclass. -/
structure Hierarchy where
  commonSuperclass : BinaryName → BinaryName → Except Fault BinaryName

namespace Hierarchy

variable (hierarchy : Hierarchy)

/-- Can a value of class `sub` be used where `sup` is expected? -/
def isSubclass (sub sup : BinaryName) : Except Fault Bool :=
  if sub = sup ∨ sup = .object then .ok true
  else (fun common => decide (common = sup)) <$> hierarchy.commonSuperclass sup sub

/-- Can a reference of one type be used where the other is expected? An interface only takes classes
that implement it. -/
def isAssignable (source target : RefType) : Except Fault Bool :=
  match source, target with
  | .object source, .object target => hierarchy.isSubclass source target
  | .array _ _, .object target =>
    .ok (target = .object ∨ target = .cloneable ∨ target = .serializable)
  | .object _, .array _ _ => .ok false
  | .array extra source, .array extra' target =>
    match _ : (RefType.array extra source).elementType?,
        (RefType.array extra' target).elementType? with
    | some (.ref source), some (.ref target) => isAssignable source target
    | source, target => .ok (source = target)
termination_by source.dimensions
decreasing_by exact RefType.dimensions_elementType (by assumption)

/-- The closest type that both references can be used as. -/
def mergeReferences (a b : RefType) : Except Fault RefType :=
  if a = b then .ok a
  else
    match a, b with
    | .object a, .object b => RefType.object <$> hierarchy.commonSuperclass a b
    | a, b =>
      match _ : a.elementType?, b.elementType? with
      | some (.ref a), some (.ref b) => do
        let element ← mergeReferences a b
        return .arrayOf (.ref element)
      | _, _ => .ok (.object .object)
termination_by a.dimensions
decreasing_by exact RefType.dimensions_elementType (by assumption)

end Hierarchy

end ClassWeave
