import Mathlib.Data.List.DropRight
import ClassWeave.Proofs.Outcome
import ClassWeave.Proofs.Typing.Order
import ClassWeave.Typing.Merge

/-!
# Merging goes up

What takes the place of two frames is above both of them, as long as the hierarchy is an order and
its answers are common superclasses.
-/

namespace ClassWeave

namespace Hierarchy

variable {hierarchy : Hierarchy}

theorem mergeReferences_self (type : RefType) :
    hierarchy.mergeReferences type type = .ok type := by
  unfold mergeReferences
  exact if_pos rfl

/-- Where two references meet, what takes their place is above both. -/
theorem Lawful.mergeReferences_above (lawful : hierarchy.Lawful) {a b merged : RefType}
    (found : hierarchy.mergeReferences a b = .ok merged) :
    hierarchy.ReferenceBelow a merged ∧ hierarchy.ReferenceBelow b merged := by
  fun_induction mergeReferences hierarchy a b generalizing merged with
  | case1 b =>
    cases found
    exact ⟨.refl b, .refl b⟩
  | case2 a b different =>
    obtain ⟨common, answer, rfl⟩ := Outcome.map_ok.mp found
    exact (lawful.common answer).imp referenceBelow_object.mpr referenceBelow_object.mpr
  | case3 a b notObjects source target sourceFound targetFound different ih =>
    obtain ⟨element, elementFound, same⟩ := Outcome.bind_ok.mp found
    cases Outcome.pure_ok.mp same
    obtain ⟨sourceBelow, targetBelow⟩ := ih elementFound
    obtain ⟨extra, component, isArray⟩ := RefType.isArray_arrayOf (.ref element)
    have merged := RefType.arrayOf_elementType (.ref element)
    rw [isArray] at merged ⊢
    cases a with
    | object name => simp [RefType.elementType?] at sourceFound
    | array extra' component' =>
      cases b with
      | object name => simp [RefType.elementType?] at targetFound
      | array extra'' component'' =>
        exact ⟨(referenceBelow_elements sourceFound merged).mpr sourceBelow,
          (referenceBelow_elements targetFound merged).mpr targetBelow⟩
  | case4 a b notObjects different unmatched =>
    cases found
    exact ⟨.root a, .root b⟩

theorem Lawful.mergeTypes_above (lawful : hierarchy.Lawful) {a b merged : VType}
    (found : hierarchy.mergeTypes a b = .ok (some merged)) :
    hierarchy.TypeBelow a merged ∧ hierarchy.TypeBelow b merged := by
  unfold mergeTypes at found
  split at found
  · obtain ⟨type, typeFound, same⟩ := Outcome.map_ok.mp found
    cases same
    exact (lawful.mergeReferences_above typeFound).imp .object .object
  · cases found
    exact ⟨.null, .same⟩
  · cases found
    exact ⟨.same, .null⟩
  · split at found
    · rename_i same
      cases found
      exact ⟨.same, same ▸ .same⟩
    · cases found

/-- Values of two slots are merged with themselves only. -/
theorem mergeTypes_wide {a b : VType} {found : Option VType}
    (merged : hierarchy.mergeTypes a b = .ok found) (wide : (found.getD .top).width = 2) :
    found.getD .top = a ∧ found.getD .top = b := by
  unfold mergeTypes at merged
  split at merged
  · obtain ⟨type, -, rfl⟩ := Outcome.map_ok.mp merged
    cases wide
  · cases merged
    cases wide
  · cases merged
    cases wide
  · cases merged
    split at wide
    · rw [if_pos ‹_›]
      exact ⟨rfl, ‹_›⟩
    · cases wide

theorem length_alignLocals (a b : List VType) :
    (alignLocals a b).length = max a.length b.length := by
  simp [alignLocals]
  omega

theorem mergeSlots_length {covered : Bool} {seen : List VType} {pairs : List (VType × VType)}
    {merged : List VType} (found : hierarchy.mergeSlots covered seen pairs = .ok merged) :
    merged.length = seen.length + pairs.length := by
  induction pairs generalizing covered seen with
  | nil =>
    cases found
    rfl
  | cons pair rest ih =>
    rw [mergeSlots] at found
    split at found
    · have length := ih found
      simp only [List.length_cons] at length ⊢
      omega
    · obtain ⟨type, typeFound, later⟩ := Outcome.bind_ok.mp found
      have length := ih later
      simp only [List.length_cons] at length ⊢
      omega

/-- Merging needs no more locals than there were. -/
theorem mergeLocals_length {a b merged : List VType}
    (found : hierarchy.mergeLocals a b = .ok merged) :
    merged.length ≤ max a.length b.length := by
  obtain ⟨reversed, reversedFound, trimmed⟩ := Outcome.bind_ok.mp found
  cases Outcome.pure_ok.mp trimmed
  have length := mergeSlots_length reversedFound
  have kept := (List.dropWhile_sublist (fun type => decide (type = VerificationType.top))
    (l := reversed)).length_le
  simp only [List.length_nil, length_alignLocals] at length
  simp only [List.length_reverse]
  omega

theorem getD_padded (locals : List VType) (count slot : Nat) :
    (locals ++ List.replicate count VerificationType.top).getD slot .top =
      locals.getD slot .top := by
  simp only [List.getD_eq_getElem?_getD, List.getElem?_append, List.getElem?_replicate]
  split
  · rfl
  · rename_i outside
    rw [List.getElem?_eq_none (by omega)]
    split <;> rfl

theorem getElem_alignLocals (a b : List VType) (slot : Nat)
    (inside : slot < (alignLocals a b).length) :
    (alignLocals a b)[slot] = (a.getD slot .top, b.getD slot .top) := by
  have bound := length_alignLocals a b ▸ inside
  simp only [alignLocals, List.getElem_zip]
  rw [← getD_padded a (b.length - a.length), ← getD_padded b (a.length - b.length)]
  rw [← List.getElem_eq_getD, ← List.getElem_eq_getD]

/-- Only unusable locals are left out at the end. -/
theorem trimmed_append (locals : List VType) : ∃ count,
    locals.rdropWhile (· = .top) ++ List.replicate count .top = locals := by
  have unused : locals.rtakeWhile (· = .top) =
      List.replicate (locals.rtakeWhile (· = .top)).length .top :=
    List.eq_replicate_iff.mpr ⟨rfl, fun type member => by
      simpa using List.mem_rtakeWhile_imp member⟩
  exact ⟨_, unused ▸ List.rdropWhile_append_rtakeWhile⟩

/-- Leaving out the unusable locals at the end changes nothing. -/
theorem getD_trimmed (locals : List VType) (slot : Nat) :
    (locals.rdropWhile (· = .top)).getD slot .top = locals.getD slot .top := by
  obtain ⟨count, same⟩ := trimmed_append locals
  conv_rhs => rw [← same]
  exact (getD_padded _ _ _).symm

/-- What holds of pairs holds of the lists that they come from. -/
private theorem forall₂_of_zip {first second : VType → VType → Prop} {a b merged : List VType}
    (heights : a.length = b.length)
    (each : List.Forall₂ (fun pair type => first pair.1 type ∧ second pair.2 type)
      (a.zip b) merged) :
    List.Forall₂ first a merged ∧ List.Forall₂ second b merged := by
  induction a generalizing b merged with
  | nil =>
    cases b with
    | nil =>
      cases each
      exact ⟨.nil, .nil⟩
    | cons => simp at heights
  | cons head rest ih =>
    cases b with
    | nil => simp at heights
    | cons =>
      cases each with
      | cons both later =>
        obtain ⟨left, right⟩ := ih (by simpa using heights) later
        exact ⟨.cons both.1 left, .cons both.2 right⟩

theorem mergeStacks_length {item : Nat} {a b merged : List VType}
    (found : hierarchy.mergeStacks item a b = .ok merged) : a.length = b.length := by
  unfold mergeStacks at found
  split at found
  · assumption
  · cases found

theorem mergeStackValue_some {item : Nat} {a b merged : VType}
    (found : hierarchy.mergeStackValue item a b = .ok merged) :
    hierarchy.mergeTypes a b = .ok (some merged) := by
  obtain ⟨type, typeFound, later⟩ := Outcome.bind_ok.mp found
  cases type with
  | none => exact (Outcome.not_throw_ok later).elim
  | some type => rwa [← Outcome.pure_ok.mp later]

/-- Stacks are merged value by value. -/
theorem mergeStacks_values {item : Nat} {a b merged : List VType}
    (found : hierarchy.mergeStacks item a b = .ok merged) :
    List.Forall₂ (fun pair type => hierarchy.mergeTypes pair.1 pair.2 = .ok (some type))
      (a.zip b) merged := by
  have heights := mergeStacks_length found
  rw [mergeStacks, if_pos heights] at found
  obtain ⟨reversed, reversedFound, rfl⟩ := Outcome.map_ok.mp found
  have values := (Outcome.mapM_ok.mp reversedFound).imp fun _ _ => mergeStackValue_some
  rw [← List.forall₂_reverse_iff, List.reverse_reverse]
  rwa [List.zip_eq_zipWith, ← List.reverse_zipWith heights, ← List.zip_eq_zipWith] at values

/-- The slots are merged one by one. What is not the same on both paths may become unusable. -/
theorem mergeSlots_values {covered : Bool} {seen : List VType} {pairs : List (VType × VType)}
    {merged : List VType} (found : hierarchy.mergeSlots covered seen pairs = .ok merged) :
    ∃ slots, merged = slots.reverse ++ seen ∧ List.Forall₂ (fun pair slot => slot = .top ∨
      hierarchy.mergeTypes pair.1 pair.2 = .ok (some slot)) pairs slots := by
  induction pairs generalizing covered seen with
  | nil =>
    cases found
    exact ⟨[], rfl, .nil⟩
  | cons pair rest ih =>
    rw [mergeSlots] at found
    split at found
    · obtain ⟨slots, rfl, values⟩ := ih found
      exact ⟨.top :: slots, by simp, .cons (.inl rfl) values⟩
    · obtain ⟨type, typeFound, later⟩ := Outcome.bind_ok.mp found
      obtain ⟨slots, rfl, values⟩ := ih later
      refine ⟨type.getD .top :: slots, by simp, .cons ?_ values⟩
      cases type with
      | none => exact .inl rfl
      | some type => exact .inr typeFound

theorem mergeLocals_values {a b merged : List VType}
    (found : hierarchy.mergeLocals a b = .ok merged) (slot : Nat) :
    merged.getD slot .top = .top ∨
      hierarchy.mergeTypes (a.getD slot .top) (b.getD slot .top) =
        .ok (some (merged.getD slot .top)) := by
  obtain ⟨reversed, reversedFound, same⟩ := Outcome.bind_ok.mp found
  cases Outcome.pure_ok.mp same
  obtain ⟨slots, rfl, values⟩ := mergeSlots_values reversedFound
  rw [List.append_nil]
  have trimmed : ((slots.reverse.dropWhile (· = .top)).reverse).getD slot .top =
      slots.getD slot .top := getD_trimmed slots slot
  rw [trimmed]
  by_cases inside : slot < slots.length
  · have aligned : slot < (alignLocals a b).length := values.length_eq ▸ inside
    have value := values.get aligned inside
    rw [List.get_eq_getElem, List.get_eq_getElem, getElem_alignLocals] at value
    have found : slots.getD slot .top = slots[slot] := (List.getElem_eq_getD _).symm
    rw [found]
    exact value
  · left
    rw [List.getD_eq_getElem?_getD, List.getElem?_eq_none (by omega)]
    rfl

theorem mergeFrames_parts {item : Nat} {existing incoming merged : VFrame}
    (found : hierarchy.mergeFrames item existing incoming = .ok merged) :
    hierarchy.mergeStacks item existing.stack incoming.stack = .ok merged.stack ∧
      hierarchy.mergeLocals existing.locals incoming.locals = .ok merged.locals := by
  obtain ⟨stack, stackFound, later⟩ := Outcome.bind_ok.mp found
  obtain ⟨locals, localsFound, same⟩ := Outcome.bind_ok.mp later
  cases Outcome.pure_ok.mp same
  exact ⟨stackFound, localsFound⟩

theorem mergeFrames_locals {item : Nat} {existing incoming merged : VFrame}
    (found : hierarchy.mergeFrames item existing incoming = .ok merged) :
    merged.locals.length ≤ max existing.locals.length incoming.locals.length :=
  mergeLocals_length (mergeFrames_parts found).2

/-- What merging does to each two values holds of the stacks. -/
theorem mergeStacks_each {first second : VType → VType → Prop}
    (each : ∀ {a b merged : VType}, hierarchy.mergeTypes a b = .ok (some merged) →
      first a merged ∧ second b merged)
    {item : Nat} {a b merged : List VType} (found : hierarchy.mergeStacks item a b = .ok merged) :
    List.Forall₂ first a merged ∧ List.Forall₂ second b merged :=
  forall₂_of_zip (mergeStacks_length found) ((mergeStacks_values found).imp fun _ _ => each)

/-- What merging does to each two types holds of the frames, except that locals may become
unusable. -/
theorem mergeFrames_each {related : VType → VType → Prop} (each : ∀ {a b merged : VType},
      hierarchy.mergeTypes a b = .ok (some merged) → related a merged ∧ related b merged)
    {item : Nat} {existing incoming merged : VFrame}
    (found : hierarchy.mergeFrames item existing incoming = .ok merged) :
    (List.Forall₂ related existing.stack merged.stack ∧
      List.Forall₂ related incoming.stack merged.stack) ∧
    ∀ slot, (merged.locals.getD slot .top = .top ∨
        related (existing.locals.getD slot .top) (merged.locals.getD slot .top)) ∧
      (merged.locals.getD slot .top = .top ∨
        related (incoming.locals.getD slot .top) (merged.locals.getD slot .top)) := by
  obtain ⟨stack, locals⟩ := mergeFrames_parts found
  refine ⟨mergeStacks_each each stack, fun slot => ?_⟩
  rcases mergeLocals_values locals slot with unused | value
  · exact ⟨.inl unused, .inl unused⟩
  · exact (each value).imp .inr .inr

/-- The frame that takes the place of two is above both. -/
theorem Lawful.mergeFrames_above (lawful : hierarchy.Lawful) {item : Nat}
    {existing incoming merged : VFrame}
    (found : hierarchy.mergeFrames item existing incoming = .ok merged) :
    hierarchy.FrameBelow existing merged ∧ hierarchy.FrameBelow incoming merged := by
  obtain ⟨⟨existingBelow, incomingBelow⟩, locals⟩ := mergeFrames_each lawful.mergeTypes_above found
  exact ⟨⟨existingBelow, fun slot => (locals slot).1⟩, ⟨incomingBelow, fun slot => (locals slot).2⟩⟩

end Hierarchy

end ClassWeave
