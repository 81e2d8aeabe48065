import Mathlib.Algebra.BigOperators.Group.List.Basic
import Mathlib.Algebra.Order.Monoid.Prod
import Mathlib.Data.Prod.Lex
import Mathlib.Data.Set.Card
import Mathlib.Logic.Relation
import ClassWeave.Proofs.Typing.Merging

/-!
# How far merging can go

Among finitely many classes without cycles, a class can give way only so often to one that is above
it. Types and frames are given ranks from that, and merging leaves a frame as it is or lowers its
rank, once the frame is written the way merging writes frames.
-/

namespace ClassWeave

open Relation

/-- What takes the place of a value is the same or has a lower rank. -/
def Descends {α ρ : Type} [LT ρ] (rank : α → ρ) (old new : α) : Prop :=
  new = old ∨ rank new < rank old

namespace Descends

variable {α ρ : Type} {rank : α → ρ} {old new : α}

theorem le [Preorder ρ] (descends : Descends rank old new) : rank new ≤ rank old := by
  rcases descends with rfl | lower
  · exact le_refl _
  · exact lower.le

theorem trans [Preorder ρ] {middle : α} (early : Descends rank old middle)
    (late : Descends rank middle new) : Descends rank old new := by
  rcases late with rfl | lower
  · exact early
  · exact .inr (lower.trans_le early.le)

/-- If one value in a list is lower and no other one is higher, the sum is lower. -/
theorem sum [AddCommMonoid ρ] [PartialOrder ρ] [IsOrderedCancelAddMonoid ρ] {olds news : List α}
    (each : List.Forall₂ (Descends rank) olds news) :
    Descends (fun values => (values.map rank).sum) olds news := by
  induction each with
  | nil => exact .inl rfl
  | cons head _ ih =>
    simp only [Descends, List.map_cons, List.sum_cons]
    rcases head with rfl | lower
    · rcases ih with rfl | lower
      · exact .inl rfl
      · exact .inr (add_lt_add_right lower _)
    · exact .inr (add_lt_add_of_lt_of_le lower ih.le)

end Descends

namespace Hierarchy

/-- Only finitely many classes are above others, none is above itself and none is above the root.
What two classes are said to share is above both. -/
structure Grounded (hierarchy : Hierarchy) (direct : BinaryName → BinaryName → Prop) : Prop where
  finite : {sup | ∃ sub, direct sub sup}.Finite
  acyclic (name : BinaryName) : ¬ TransGen direct name name
  root (sup : BinaryName) : ¬ direct .object sup
  common {a b common : BinaryName} : hierarchy.commonSuperclass a b = .ok common →
    ReflTransGen direct a common ∧ ReflTransGen direct b common

section Ranks

variable (direct : BinaryName → BinaryName → Prop)

def above (name : BinaryName) : Set BinaryName := {sup | TransGen direct name sup}

/-- How often a class can give way to one that is above it, at most. -/
noncomputable def classRank (name : BinaryName) : Nat :=
  if name = .object then 0 else (above direct name).ncard + 1

/-- The rank of the classes that an array is made of. -/
noncomputable def leafRank : RefType → Nat
  | .object name | .array _ (.object name) => classRank direct name
  | .array _ (.base _) => 0

/-- An array of arrays may also give way to an array of the root, which has fewer dimensions. -/
noncomputable def referenceRank (type : RefType) : Nat := type.dimensions + leafRank direct type

/-- Null gives way to any reference, whatever its rank, and a local may become unusable. -/
noncomputable def typeRank : VType → ℕ ×ₗ ℕ
  | .top => 0
  | .null => toLex (1, 0)
  | .object type => toLex (0, referenceRank direct type + 2)
  | _ => toLex (0, 1)

noncomputable def valuesRank (values : List VType) : ℕ ×ₗ ℕ := (values.map (typeRank direct)).sum

noncomputable def frameRank (frame : VFrame) : ℕ ×ₗ ℕ :=
  valuesRank direct frame.locals + valuesRank direct frame.stack

end Ranks

variable {hierarchy : Hierarchy} {direct : BinaryName → BinaryName → Prop}

section References

theorem referenceRank_element {type element : RefType}
    (isElement : type.elementType? = some (.ref element)) :
    referenceRank direct type = referenceRank direct element + 1 := by
  match type, element with
  | .object _, _ | .array 0 (.base _), _ => simp [RefType.elementType?] at isElement
  | .array 0 (.object name), element =>
    cases isElement
    simp only [referenceRank, RefType.dimensions, leafRank]
    omega
  | .array (extra + 1) component, element =>
    cases isElement
    have leaf : leafRank direct (.array (extra + 1) component) =
        leafRank direct (.array extra component) := by
      cases component <;> rfl
    simp only [referenceRank, RefType.dimensions, leaf]
    omega

theorem referenceRank_root : referenceRank direct (.object .object) = 0 := by
  simp [referenceRank, RefType.dimensions, leafRank, classRank]

theorem referenceRank_pos {type : RefType} (notRoot : type ≠ .object .object) :
    0 < referenceRank direct type := by
  cases type with
  | object name =>
    have other : name ≠ .object := fun same => notRoot (congrArg RefType.object same)
    simp [referenceRank, leafRank, classRank, other]
  | array extra component =>
    simp only [referenceRank, RefType.dimensions]
    omega

namespace Grounded

variable (grounded : hierarchy.Grounded direct)

include grounded

theorem finite_above (name : BinaryName) : (above direct name).Finite := by
  refine grounded.finite.subset fun sup path => ?_
  cases path with
  | single last | tail _ last => exact ⟨_, last⟩

/-- A class has fewer classes above it than any class below it. -/
theorem classRank_descends {sub sup : BinaryName} (path : ReflTransGen direct sub sup) :
    Descends (classRank direct) sub sup := by
  rcases reflTransGen_iff_eq_or_transGen.mp path with same | path
  · exact .inl same
  have notRoot : sub ≠ .object := by
    rintro rfl
    obtain ⟨next, first, -⟩ := TransGen.head'_iff.mp path
    exact grounded.root next first
  right
  simp only [classRank, if_neg notRoot]
  split
  · exact Nat.succ_pos _
  · have fewer : above direct sup ⊂ above direct sub :=
      ⟨fun _ further => path.trans further, fun all => grounded.acyclic sup (all path)⟩
    exact Nat.succ_lt_succ (Set.ncard_lt_ncard fewer (grounded.finite_above sub))

/-- Where two references meet, each gives way to what takes their place. -/
theorem mergeReferences_descends {a b merged : RefType}
    (found : hierarchy.mergeReferences a b = .ok merged) :
    Descends (referenceRank direct) a merged := by
  fun_induction mergeReferences hierarchy a b generalizing merged with
  | case1 b =>
    cases found
    exact .inl rfl
  | case2 a b different =>
    obtain ⟨common, answer, rfl⟩ := Outcome.map_ok.mp found
    refine (grounded.classRank_descends (grounded.common answer).1).imp (congrArg _) fun lower => ?_
    simpa [referenceRank, RefType.dimensions, leafRank] using lower
  | case3 a b notObjects source target sourceFound targetFound different ih =>
    obtain ⟨element, elementFound, same⟩ := Outcome.bind_ok.mp found
    cases Outcome.pure_ok.mp same
    rcases ih elementFound with rfl | lower
    · left
      obtain ⟨extra, component, isArray⟩ := RefType.isArray_arrayOf (.ref element)
      have elements := RefType.arrayOf_elementType (.ref element)
      rw [isArray] at elements ⊢
      cases a with
      | object name => simp [RefType.elementType?] at sourceFound
      | array => exact RefType.array_of_elementType (elements.trans sourceFound.symm)
    · right
      rw [referenceRank_element sourceFound,
        referenceRank_element (RefType.arrayOf_elementType (.ref element))]
      omega
  | case4 a b notObjects different unmatched =>
    cases found
    by_cases isRoot : a = .object .object
    · exact .inl isRoot.symm
    · right
      rw [referenceRank_root]
      exact referenceRank_pos isRoot

end Grounded

end References

section Types

theorem typeRank_pos {type : VType} (usable : type ≠ .top) : 0 < typeRank direct type := by
  cases type with
  | top => exact absurd rfl usable
  | _ => simp [typeRank, ← toLex_zero, Prod.Lex.toLex_lt_toLex]

theorem valuesRank_padded (locals : List VType) (count : Nat) :
    valuesRank direct (locals ++ List.replicate count .top) = valuesRank direct locals := by
  simp [valuesRank, typeRank]

/-- A local that is not the same on both paths may become unusable. -/
theorem Grounded.mergeTypes_descends (grounded : hierarchy.Grounded direct) {a b : VType}
    {found : Option VType} (merged : hierarchy.mergeTypes a b = .ok found) :
    Descends (typeRank direct) a (found.getD .top) := by
  unfold mergeTypes at merged
  split at merged
  · obtain ⟨type, typeFound, rfl⟩ := Outcome.map_ok.mp merged
    refine (grounded.mergeReferences_descends typeFound).imp (congrArg _) fun lower => ?_
    simpa [typeRank, Prod.Lex.toLex_lt_toLex] using lower
  · cases merged
    exact .inr (by simp [typeRank, Prod.Lex.toLex_lt_toLex])
  · cases merged
    exact .inl rfl
  · cases merged
    split
    · exact .inl rfl
    · by_cases unusable : a = .top
      · exact .inl unusable.symm
      · exact .inr (typeRank_pos unusable)

end Types

section Locals

/-- Every two-slot local is followed by an unusable one, as is the local before the list if it is
said to cover the first slot. -/
def Covers : (covered : Bool) → List VType → Prop
  | _, [] => True
  | covered, type :: rest => (covered = true → type = .top) ∧ Covers (type.width == 2) rest

theorem Covers.uncovered {covered : Bool} {locals : List VType} (covers : Covers covered locals) :
    Covers false locals := by
  cases locals with
  | nil => trivial
  | cons => exact ⟨fun impossible => absurd impossible Bool.false_ne_true, covers.2⟩

theorem Covers.before {covered : Bool} {locals more : List VType}
    (covers : Covers covered (locals ++ more)) : Covers covered locals := by
  induction locals generalizing covered with
  | nil => trivial
  | cons type rest ih => exact ⟨covers.1, ih covers.2⟩

theorem Covers.padded {covered : Bool} {locals : List VType} (covers : Covers covered locals)
    (count : Nat) : Covers covered (locals ++ List.replicate count .top) := by
  induction locals generalizing covered with
  | nil =>
    induction count generalizing covered with
    | zero => trivial
    | succ count ih => exact ⟨fun _ => rfl, ih trivial⟩
  | cons type rest ih => exact ⟨covers.1, ih covers.2⟩

/-- Locals as merging leaves them. -/
structure Tidy (locals : List VType) : Prop where
  covers : Covers false locals
  trimmed : locals.rdropWhile (· = .top) = locals

theorem rdropWhile_padded (locals : List VType) (count : Nat) :
    (locals ++ List.replicate count VerificationType.top).rdropWhile (· = VerificationType.top) =
      locals.rdropWhile (· = VerificationType.top) := by
  induction count with
  | zero => rw [List.replicate_zero, List.append_nil]
  | succ count ih =>
    rw [List.replicate_succ', ← List.append_assoc, List.rdropWhile_concat_pos _ _ _ (by simp), ih]

namespace Grounded

variable (grounded : hierarchy.Grounded direct)

include grounded

/-- A slot that is covered by a merged local was covered before, so nothing was in it. -/
theorem mergeSlots_descends {covered : Bool} {seen : List VType} {pairs : List (VType × VType)}
    {merged : List VType} (found : hierarchy.mergeSlots covered seen pairs = .ok merged) :
    ∃ slots, merged = slots.reverse ++ seen ∧ Covers covered slots ∧
      (Covers covered (pairs.map Prod.fst) →
        List.Forall₂ (Descends (typeRank direct)) (pairs.map Prod.fst) slots) := by
  induction pairs generalizing covered seen with
  | nil =>
    cases found
    exact ⟨[], rfl, trivial, fun _ => .nil⟩
  | cons pair rest ih =>
    obtain ⟨a, b⟩ := pair
    rw [mergeSlots] at found
    split at found
    · obtain ⟨slots, rfl, covers, descend⟩ := ih found
      refine ⟨.top :: slots, by simp, ⟨fun _ => rfl, covers⟩, fun before => ?_⟩
      exact .cons (.inl (before.1 ‹_›).symm) (descend before.2.uncovered)
    · rename_i free
      obtain ⟨type, typeFound, later⟩ := Outcome.bind_ok.mp found
      obtain ⟨slots, rfl, covers, descend⟩ := ih later
      refine ⟨type.getD .top :: slots, by simp, ⟨fun isCovered => absurd isCovered free, covers⟩,
        fun before => .cons (grounded.mergeTypes_descends typeFound) (descend ?_)⟩
      by_cases wide : (type.getD .top).width = 2
      · rw [(mergeTypes_wide typeFound wide).1]
        exact before.2
      · rw [beq_false_of_ne wide]
        exact before.2.uncovered

/-- Merged locals are tidy, and if they were tidy before, merging leaves them or lowers their rank.
-/
theorem mergeLocals_descends {a b merged : List VType}
    (found : hierarchy.mergeLocals a b = .ok merged) :
    Tidy merged ∧ (Tidy a → Descends (valuesRank direct) a merged) := by
  obtain ⟨reversed, reversedFound, trimmed⟩ := Outcome.bind_ok.mp found
  obtain ⟨slots, rfl, covers, descend⟩ := grounded.mergeSlots_descends reversedFound
  have isTrimmed : merged = slots.rdropWhile (· = .top) := by
    rw [← Outcome.pure_ok.mp trimmed, List.append_nil]
    rfl
  obtain ⟨count, padded⟩ := trimmed_append slots
  rw [← isTrimmed] at padded
  refine ⟨⟨(padded ▸ covers).before, ?_⟩, fun tidy => ?_⟩
  · rw [isTrimmed, List.rdropWhile_idempotent]
  have before : (alignLocals a b).map Prod.fst = a ++ List.replicate (b.length - a.length) .top :=
    List.map_fst_zip (by simp; omega)
  rw [before] at descend
  rcases Descends.sum (descend (tidy.covers.padded _)) with same | lower
  · left
    rw [isTrimmed, same, rdropWhile_padded, tidy.trimmed]
  · right
    rw [← valuesRank_padded merged count, padded, ← valuesRank_padded a (b.length - a.length)]
    exact lower

/-- Stack values that are merged are the same or lower. -/
theorem mergeStacks_descends {item : Nat} {a b merged : List VType}
    (found : hierarchy.mergeStacks item a b = .ok merged) :
    Descends (valuesRank direct) a merged := by
  have each {a b merged : VType} (typeFound : hierarchy.mergeTypes a b = .ok (some merged)) :
      Descends (typeRank direct) a merged ∧ True :=
    ⟨grounded.mergeTypes_descends typeFound, trivial⟩
  exact Descends.sum (mergeStacks_each each found).1

/-- The frame that takes the place of two is tidy. It takes the place of a tidy frame only if it
has a lower rank. -/
theorem mergeFrames_descends {item : Nat} {existing incoming merged : VFrame}
    (found : hierarchy.mergeFrames item existing incoming = .ok merged) :
    Tidy merged.locals ∧ (Tidy existing.locals → Descends (frameRank direct) existing merged) := by
  obtain ⟨stackFound, localsFound⟩ := mergeFrames_parts found
  obtain ⟨tidy, descend⟩ := grounded.mergeLocals_descends localsFound
  refine ⟨tidy, fun tidyBefore => ?_⟩
  have onStack := grounded.mergeStacks_descends stackFound
  rcases descend tidyBefore with sameLocals | lowerLocals
  · rcases onStack with sameStack | lowerStack
    · left
      obtain ⟨locals, stack⟩ := merged
      cases sameLocals
      cases sameStack
      rfl
    · right
      simp only [frameRank, sameLocals]
      exact add_lt_add_right lowerStack _
  · exact .inr (add_lt_add_of_lt_of_le lowerLocals onStack.le)

end Grounded

end Locals

end Hierarchy

end ClassWeave
