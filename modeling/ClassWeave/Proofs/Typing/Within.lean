import ClassWeave.Proofs.Typing.Locals

/-!
# What comes up where types meet

Where values of one type meet, what takes their place need not be of the type: it is the closest type
that they share, and that may be above. What can come up at all stays within bounds, though, whatever
the items do with it.
-/

namespace ClassWeave

namespace Hierarchy

variable {hierarchy : Hierarchy}

/-- What can come up where nothing but values of a type meet. -/
inductive Within (hierarchy : Hierarchy) (upper : VType) : VType → Prop where
  | same : Within hierarchy upper upper
  | lower {type other : VType} (within : Within hierarchy upper type)
      (below : hierarchy.TypeBelow other type) : Within hierarchy upper other
  | merged {a b merged : VType} (first : Within hierarchy upper a)
      (second : Within hierarchy upper b) (found : hierarchy.mergeTypes a b = .ok (some merged)) :
      Within hierarchy upper merged

/-- Values of the type that meet can still be used as values of the type. -/
def Retains (hierarchy : Hierarchy) (type : VType) : Prop :=
  ∀ ⦃a b merged⦄, hierarchy.TypeBelow a type → hierarchy.TypeBelow b type →
    hierarchy.mergeTypes a b = .ok (some merged) → hierarchy.TypeBelow merged type

theorem TypeBelow.alike {lower upper : VType} (below : hierarchy.TypeBelow lower upper) :
    VType.Alike upper lower := by
  cases below with
  | same => exact .refl _
  | null | object => exact .inr ⟨rfl, rfl⟩

/-- Where arrays meet, their elements do. -/
theorem mergeReferences_arrays {a b merged source target : RefType}
    (sourceFound : a.elementType? = some (.ref source))
    (targetFound : b.elementType? = some (.ref target))
    (found : hierarchy.mergeReferences a b = .ok merged) :
    ∃ element, merged.elementType? = some (.ref element) ∧
      hierarchy.mergeReferences source target = .ok element := by
  unfold mergeReferences at found
  split at found
  · rename_i same
    cases same
    cases found
    cases sourceFound.symm.trans targetFound
    exact ⟨source, sourceFound, mergeReferences_self source⟩
  · split at found
    · cases sourceFound
    · split at found
      · rename_i first second firstFound secondFound
        cases sourceFound.symm.trans firstFound
        cases targetFound.symm.trans secondFound
        obtain ⟨element, met, same⟩ := Outcome.bind_ok.mp found
        cases Outcome.pure_ok.mp same
        exact ⟨element, RefType.arrayOf_elementType _, met⟩
      · rename_i unmatched
        exact (unmatched source target sourceFound targetFound).elim

namespace Within

variable {upper lower : VType}

/-- A type that is retained bounds what comes up. -/
theorem typeBelow (lawful : hierarchy.Lawful) (retains : hierarchy.Retains upper)
    (within : hierarchy.Within upper lower) : hierarchy.TypeBelow lower upper := by
  induction within with
  | same => exact .same
  | lower _ below ih => exact lawful.typeBelow_trans below ih
  | merged _ _ found first second => exact retains first second found

theorem trans {middle : VType} (first : hierarchy.Within upper middle)
    (second : hierarchy.Within middle lower) : hierarchy.Within upper lower := by
  induction second with
  | same => exact first
  | lower _ below ih => exact .lower ih below
  | merged _ _ found first second => exact .merged first second found

/-- Only the classes of initialized objects are lost sight of. -/
theorem alike (within : hierarchy.Within upper lower) : VType.Alike upper lower := by
  induction within with
  | same => exact .refl _
  | lower _ below ih => exact ih.trans below.alike
  | merged _ _ found first _ => exact first.trans (mergeTypes_alike found).1

/-- Bounds for arrays are bounds for their elements. -/
theorem hasElement {element : VType} (within : hierarchy.Within upper lower)
    (holds : VType.HasElement upper element) :
    ∃ found, VType.HasElement lower found ∧ hierarchy.Within element found := by
  have nothing : hierarchy.TypeBelow .null element := by
    cases holds with
    | null => exact .same
    | object => exact .null
  induction within with
  | same => exact ⟨element, holds, .same⟩
  | @lower type other _ below ih =>
    obtain ⟨found, typeHolds, foundWithin⟩ := ih
    cases below with
    | same => exact ⟨found, typeHolds, foundWithin⟩
    | null => exact ⟨.null, .null, .lower .same nothing⟩
    | @object source target below =>
      cases typeHolds with
      | @object _ inner targetElement =>
        cases target with
        | object => cases targetElement
        | array =>
          cases source with
          | object => exact (not_referenceBelow_object_array below).elim
          | array =>
            rcases referenceBelow_array_cases below with
              ⟨lowerInner, upperInner, sourceFound, targetFound, innerBelow⟩ | same
            · cases targetElement.symm.trans targetFound
              exact ⟨_, .object sourceFound, foundWithin.lower (.object innerBelow)⟩
            · exact ⟨_, .object (same ▸ targetElement), foundWithin⟩
  | @merged a b merged _ _ mergedFound first second =>
    obtain ⟨firstElement, firstHolds, firstWithin⟩ := first
    obtain ⟨secondElement, secondHolds, secondWithin⟩ := second
    cases firstHolds with
    | null =>
      cases secondHolds with
      | null =>
        cases mergedFound
        exact ⟨_, .null, firstWithin⟩
      | object found =>
        cases mergedFound
        exact ⟨_, .object found, secondWithin⟩
    | @object firstArray firstInner firstFound =>
      cases secondHolds with
      | null =>
        cases mergedFound
        exact ⟨_, .object firstFound, firstWithin⟩
      | @object secondArray secondInner secondFound =>
        obtain ⟨type, typeFound, same⟩ := Outcome.map_ok.mp mergedFound
        cases same
        obtain ⟨inner, innerFound, met⟩ := mergeReferences_arrays firstFound secondFound typeFound
        exact ⟨_, .object innerFound, .merged firstWithin secondWithin (by rw [mergeTypes, met]; rfl)⟩

end Within

/-- A class is retained if what its subclasses have in common is one as well. -/
theorem retains_class {name : BinaryName}
    (proper : name ≠ .object ∧ name ≠ .cloneable ∧ name ≠ .serializable)
    (closest : ∀ ⦃a b common⦄, hierarchy.ClassBelow a name → hierarchy.ClassBelow b name →
      hierarchy.commonSuperclass a b = .ok common → hierarchy.ClassBelow common name) :
    hierarchy.Retains (.object (.object name)) := by
  have known {type : VType} (below : hierarchy.TypeBelow type (.object (.object name))) :
      type = .null ∨ ∃ lower, type = .object (.object lower) ∧ hierarchy.ClassBelow lower name := by
    cases below with
    | same => exact .inr ⟨name, rfl, .refl name⟩
    | null => exact .inl rfl
    | @object source _ below =>
      cases source with
      | object lower => exact .inr ⟨lower, rfl, referenceBelow_object.mp below⟩
      | array => simp [referenceBelow_array_object, proper] at below
  intro a b merged first second found
  rcases known first with rfl | ⟨lower, rfl, lowerBelow⟩
  · rcases known second with rfl | ⟨_, rfl, -⟩
    · cases found
      exact .null
    · cases found
      exact second
  · rcases known second with rfl | ⟨other, rfl, otherBelow⟩
    · cases found
      exact first
    · obtain ⟨common, commonFound, same⟩ := Outcome.map_ok.mp found
      cases same
      unfold mergeReferences at commonFound
      split at commonFound
      · cases commonFound
        exact first
      · obtain ⟨shared, sharedFound, same⟩ := Outcome.map_ok.mp commonFound
        cases same
        exact .object (referenceBelow_object.mpr (closest lowerBelow otherBelow sharedFound))

/-- Arrays of different primitives have nothing in common but being objects, though all of them can be
cloned. -/
theorem not_retains_cloneable (lawful : hierarchy.Lawful) :
    ¬ hierarchy.Retains (.object (.object .cloneable)) := by
  intro retains
  have clones (base : BaseType) : hierarchy.TypeBelow (.object (.array 0 (.base base)))
      (.object (.object .cloneable)) := .object (referenceBelow_array_object.mpr (.inr (.inl rfl)))
  have met : hierarchy.mergeTypes (.object (.array 0 (.base .int)))
      (.object (.array 0 (.base .long))) = .ok (some (.object (.object .object))) := by
    rw [mergeTypes, mergeReferences]
    · rfl
    · intro _ _ same
      cases same
  have below := (retains (clones .int) (clones .long) met).reference
  have same : BinaryName.cloneable = .object := lawful.above_root (referenceBelow_object.mp below)
  exact absurd same (by decide)
/-- References to initialized objects have something in common, and so has each type with itself. -/
theorem not_mergeTypes_none {upper a b : VType} (first : VType.Alike upper a)
    (second : VType.Alike upper b) : hierarchy.mergeTypes a b ≠ .ok none := by
  intro nothing
  have alike : VType.Alike a b := by
    rcases first with rfl | ⟨initialized, firstInitialized⟩
    · exact second
    · exact .inr ⟨firstInitialized, second.isInitialized_eq.symm.trans initialized⟩
  unfold mergeTypes at nothing
  split at nothing
  · obtain ⟨_, -, ⟨⟩⟩ := Outcome.map_ok.mp nothing
  · cases nothing
  · cases nothing
  · rename_i objects nullFirst nullSecond
    rw [Except.ok.injEq, ite_eq_right_iff] at nothing
    rcases alike with rfl | ⟨firstDone, secondDone⟩
    · cases nothing rfl
    · cases a <;> cases firstDone <;> cases b <;> cases secondDone
      · cases nothing rfl
      · exact nullFirst _ rfl rfl
      · exact nullSecond _ rfl rfl
      · exact objects _ _ rfl rfl

/-- What is within the bounds of one type stays there. -/
theorem mergeTypes_within {upper a b : VType} {found : Option VType}
    (merged : hierarchy.mergeTypes a b = .ok found) (first : hierarchy.Within upper a)
    (second : hierarchy.Within upper b) : hierarchy.Within upper (found.getD .top) := by
  cases found with
  | some type => exact .merged first second merged
  | none => exact (not_mergeTypes_none first.alike second.alike merged).elim

/-- The slots of locals that are spaced out are merged one by one. -/
theorem mergeSlots_found {covered : Bool} {seen : List VType} {pairs : List (VType × VType)}
    {merged : List VType} (found : hierarchy.mergeSlots covered seen pairs = .ok merged)
    (first : Spaced (pairs.map Prod.fst)) (second : Spaced (pairs.map Prod.snd))
    (unused : covered = true → ∀ pair ∈ pairs.head?, pair = (.top, .top)) :
    ∃ slots, merged = slots.reverse ++ seen ∧ List.Forall₂ (fun pair slot =>
      ∃ type, hierarchy.mergeTypes pair.1 pair.2 = .ok type ∧ slot = type.getD .top) pairs slots := by
  induction pairs generalizing covered seen with
  | nil =>
    cases found
    exact ⟨[], rfl, .nil⟩
  | cons pair rest ih =>
    obtain ⟨a, b⟩ := pair
    obtain ⟨firstNext, firstRest⟩ := spaced_cons.mp first
    obtain ⟨secondNext, secondRest⟩ := spaced_cons.mp second
    rw [mergeSlots] at found
    split at found
    · rename_i isCovered
      cases unused isCovered _ rfl
      obtain ⟨slots, rfl, values⟩ := ih found firstRest secondRest fun isCovered =>
        absurd isCovered Bool.false_ne_true
      exact ⟨.top :: slots, by simp, .cons ⟨some .top, rfl, rfl⟩ values⟩
    · obtain ⟨type, typeFound, later⟩ := Outcome.bind_ok.mp found
      obtain ⟨slots, rfl, values⟩ := ih later firstRest secondRest fun wide pair isNext => by
        obtain ⟨isFirst, isSecond⟩ := mergeTypes_wide typeFound (beq_iff_eq.mp wide)
        have wide := beq_iff_eq.mp wide
        cases rest with
        | nil => cases isNext
        | cons next rest =>
          cases isNext
          exact Prod.ext (firstNext (isFirst ▸ wide)) (secondNext (isSecond ▸ wide))
      exact ⟨type.getD .top :: slots, by simp, .cons ⟨type, typeFound, rfl⟩ values⟩

theorem mergeLocals_found {a b merged : List VType}
    (found : hierarchy.mergeLocals a b = .ok merged) (first : Spaced a) (second : Spaced b)
    (slot : Nat) : ∃ type, hierarchy.mergeTypes (a.getD slot .top) (b.getD slot .top) = .ok type ∧
      merged.getD slot .top = type.getD .top := by
  obtain ⟨reversed, reversedFound, same⟩ := Outcome.bind_ok.mp found
  cases Outcome.pure_ok.mp same
  have padded {locals : List VType} (spaced : Spaced locals) (count : Nat) :
      Spaced (locals ++ List.replicate count .top) := by
    intro slot wide
    rw [getD_padded] at wide ⊢
    exact spaced slot wide
  have firstAligned : Spaced ((alignLocals a b).map Prod.fst) := by
    rw [alignLocals, List.map_fst_zip (by simp; omega)]
    exact padded first _
  have secondAligned : Spaced ((alignLocals a b).map Prod.snd) := by
    rw [alignLocals, List.map_snd_zip (by simp; omega)]
    exact padded second _
  obtain ⟨slots, rfl, values⟩ := mergeSlots_found reversedFound firstAligned secondAligned
    fun isCovered => absurd isCovered Bool.false_ne_true
  rw [List.append_nil]
  have trimmed : ((slots.reverse.dropWhile (· = .top)).reverse).getD slot .top =
      slots.getD slot .top := getD_trimmed slots slot
  rw [trimmed]
  by_cases inside : slot < slots.length
  · have aligned : slot < (alignLocals a b).length := values.length_eq ▸ inside
    have value := values.get aligned inside
    rw [List.get_eq_getElem, List.get_eq_getElem, getElem_alignLocals] at value
    have found : slots.getD slot .top = slots[slot] := (List.getElem_eq_getD _).symm
    rw [found]
    exact value
  · have beyond : max a.length b.length ≤ slot := by
      rw [← length_alignLocals, values.length_eq]
      omega
    have none {locals : List VType} (short : locals.length ≤ slot) : locals.getD slot .top = .top := by
      rw [List.getD_eq_getElem?_getD, List.getElem?_eq_none short]
      rfl
    rw [none (by omega), none (by omega), none (by omega)]
    exact ⟨some .top, rfl, rfl⟩

/-- Locals that are unusable have no bounds. -/
def LocalWithin (hierarchy : Hierarchy) (upper lower : VType) : Prop :=
  upper = .top ∨ hierarchy.Within upper lower

theorem LocalWithin.lower {upper middle lower : VType} (within : hierarchy.LocalWithin upper middle)
    (below : hierarchy.LocalBelow lower middle) : hierarchy.LocalWithin upper lower := by
  rcases within with unused | within
  · exact .inl unused
  · rcases below with rfl | below
    · rcases within.alike with unused | ⟨-, ⟨⟩⟩
      exact .inl unused
    · exact .inr (within.lower below)

theorem LocalWithin.localBelow (lawful : hierarchy.Lawful) {upper lower : VType}
    (retains : hierarchy.Retains upper) (within : hierarchy.LocalWithin upper lower) :
    hierarchy.LocalBelow lower upper :=
  within.imp_right (Within.typeBelow lawful retains)

/-- What is initialized has the same bounds after items have moved. -/
theorem localWithin_moved {move : Nat → Nat} {upper lower : VType}
    (initialized : lower.isInitialized = true) :
    hierarchy.LocalWithin (upper.moved move) lower ↔ hierarchy.LocalWithin upper lower := by
  have never {source : Nat} : ¬ hierarchy.LocalWithin (.uninitialized source) lower := by
    rintro (⟨⟨⟩⟩ | within)
    cases within.alike.isInitialized_eq.trans initialized
  cases upper with
  | uninitialized => exact iff_of_false never never
  | top | integer | float | double | long | null | uninitializedThis | object => exact Iff.rfl

/-- A frame whose locals are within the bounds of another's, and whose stack is related to the
other's value by value. -/
structure FrameBounds (hierarchy : Hierarchy) (related : VType → VType → Prop)
    (upper lower : VFrame) : Prop where
  stack : List.Forall₂ related upper.stack lower.stack
  locals (slot : Nat) :
    hierarchy.LocalWithin (upper.locals.getD slot .top) (lower.locals.getD slot .top)
  spaced : Spaced lower.locals

/-- A frame that can come up in the place of the upper one. -/
abbrev FrameWithin (hierarchy : Hierarchy) : VFrame → VFrame → Prop :=
  hierarchy.FrameBounds hierarchy.Within

theorem forall₂_merged {related : VType → VType → Prop} (closed : ∀ ⦃upper a b merged⦄,
      hierarchy.mergeTypes a b = .ok (some merged) → related upper a → related upper b →
        related upper merged)
    {uppers a b merged : List VType}
    (values : List.Forall₂ (fun pair type => hierarchy.mergeTypes pair.1 pair.2 = .ok (some type))
      (a.zip b) merged) (first : List.Forall₂ related uppers a)
    (second : List.Forall₂ related uppers b) : List.Forall₂ related uppers merged := by
  induction first generalizing b merged with
  | nil =>
    cases second
    cases values
    exact .nil
  | cons head _ ih =>
    cases second with
    | cons other others =>
      cases values with
      | cons value values => exact .cons (closed value head other) (ih values others)

namespace FrameBounds

variable {related : VType → VType → Prop} {upper : VFrame}

/-- Frames that meet within bounds stay there. -/
theorem merged (closed : ∀ ⦃upper a b merged⦄,
      hierarchy.mergeTypes a b = .ok (some merged) → related upper a → related upper b →
        related upper merged)
    {item : Nat} {existing incoming merged : VFrame}
    (found : hierarchy.mergeFrames item existing incoming = .ok merged)
    (first : hierarchy.FrameBounds related upper existing)
    (second : hierarchy.FrameBounds related upper incoming) :
    hierarchy.FrameBounds related upper merged := by
  obtain ⟨stack, locals⟩ := mergeFrames_parts found
  refine ⟨forall₂_merged closed (mergeStacks_values stack) first.stack second.stack,
    fun slot => ?_, (mergeLocals_spaced locals).2⟩
  obtain ⟨type, typeFound, same⟩ := mergeLocals_found locals first.spaced second.spaced slot
  rcases first.locals slot with unused | firstWithin
  · exact .inl unused
  · rcases second.locals slot with unused | secondWithin
    · exact .inl unused
    · exact .inr (same ▸ mergeTypes_within typeFound firstWithin secondWithin)

end FrameBounds

theorem LocalWithin.raise {upper middle lower : VType} (within : hierarchy.LocalWithin middle lower)
    (below : hierarchy.LocalBelow middle upper) : hierarchy.LocalWithin upper lower := by
  rcases below with unused | below
  · exact .inl unused
  · rcases within with unused | within
    · subst unused
      cases below
      exact .inl rfl
    · exact .inr (.trans (.lower .same below) within)

namespace FrameWithin

variable {upper middle lower : VFrame}

/-- Higher frames are bounds as well. -/
theorem raise (within : hierarchy.FrameWithin middle lower)
    (below : hierarchy.FrameBelow middle upper) : hierarchy.FrameWithin upper lower where
  stack := forall₂_comp (List.Forall₂.flip below.stack) within.stack
    fun _ _ _ raised stays => .trans (.lower .same raised) stays
  locals slot := (within.locals slot).raise (below.locals slot)
  spaced := within.spaced

theorem self {frame : VFrame} (spaced : Spaced frame.locals) : hierarchy.FrameWithin frame frame where
  stack := List.forall₂_same.mpr fun _ _ => .same
  locals _ := .inr .same
  spaced := spaced

end FrameWithin

section Stores

variable {locals others : List VType} {slot : Nat} {type other : VType}

/-- Stores keep within bounds what is within bounds. -/
theorem localWithin_storeLocal (spaced : Spaced others)
    (bounded : ∀ slot, hierarchy.LocalWithin (locals.getD slot .top) (others.getD slot .top))
    (within : hierarchy.Within type other) (index : Nat) :
    hierarchy.LocalWithin ((storeLocal locals slot type).getD index .top)
      ((storeLocal others slot other).getD index .top) := by
  have width := within.alike.width_eq
  rw [storeLocal_getD, storeLocal_getD]
  by_cases here : index = slot
  · rw [if_pos here, if_pos here]
    exact .inr within
  rw [if_neg here, if_neg here]
  split
  · exact .inl rfl
  rename_i notCovered
  split
  · exact .inl rfl
  rename_i notCut
  by_cases unused : locals.getD index .top = .top
  · exact .inl unused
  have stays := (bounded index).resolve_left unused
  right
  rw [if_neg, if_neg]
  · exact stays
  · rintro ⟨next, wide⟩
    exact notCut ⟨next, stays.alike.width_eq.trans wide⟩
  · rintro ⟨rfl, wide | wide⟩
    · exact notCovered ⟨rfl, .inl (width.trans wide)⟩
    · -- The value in the slot took the next one as well, which has been unusable all along.
      have alike := spaced slot wide ▸ stays.alike
      rcases alike with same | ⟨-, ⟨⟩⟩
      exact unused same

/-- What is stored in the place of a value is bounded wherever the value has been usable. -/
theorem localWithin_stored {higher : List VType} (spaced : Spaced locals)
    (otherSpaced : Spaced others) (usable : locals.getD slot .top ≠ .top) (single : type.width = 1)
    (bounded : ∀ slot, hierarchy.LocalWithin (locals.getD slot .top) (others.getD slot .top))
    (below : ∀ slot, hierarchy.LocalBelow (locals.getD slot .top) (higher.getD slot .top))
    (fits : hierarchy.LocalWithin (higher.getD slot .top) type)
    (within : hierarchy.Within type other) (index : Nat) :
    hierarchy.LocalWithin (higher.getD index .top)
      ((storeLocal others slot other).getD index .top) := by
  by_cases here : index = slot
  · rw [storeLocal_getD, if_pos here, here]
    exact fits.imp_right fun bounds => bounds.trans within
  · have stays : hierarchy.LocalWithin ((storeLocal locals slot type).getD index .top)
        ((storeLocal others slot other).getD index .top) :=
      localWithin_storeLocal otherSpaced bounded within index
    rw [storeLocal_getD_other spaced usable single here] at stays
    exact stays.raise (below index)

end Stores

section Steps

variable {upper lower upperAfter lowerAfter : VFrame}

/-- A constructor call initializes the same copies. -/
theorem Within.replaced {old new type other : VType} (uninitialized : old.isInitialized = false)
    (within : hierarchy.Within type other) :
    hierarchy.Within (FrameM.replaced old new type) (FrameM.replaced old new other) := by
  have alike := within.alike
  unfold FrameM.replaced
  by_cases here : type = old
  · subst here
    rw [if_pos rfl, if_pos (alike.eq_of_uninitialized uninitialized).symm]
    exact .same
  · rw [if_neg here, if_neg]
    · exact within
    · rintro rfl
      rcases alike with same | ⟨-, initialized⟩
      · exact here same
      · cases uninitialized.symm.trans initialized

theorem instruction_within {thisClass : BinaryName} {position : Nat} {step : SymInstruction}
    (within : hierarchy.FrameWithin upper lower)
    (upperDone : FrameM.instruction thisClass position step upper = .ok ((), upperAfter))
    (lowerDone : FrameM.instruction thisClass position step lower = .ok ((), lowerAfter)) :
    List.Forall₂ hierarchy.Within upperAfter.stack lowerAfter.stack ∧
      ∀ slot, hierarchy.LocalWithin (upperAfter.locals.getD slot .top)
        (lowerAfter.locals.getD slot .top) := by
  have lowerStep : FrameStep thisClass position lower (.instruction step) lowerAfter :=
    FrameM.instruction_step lowerDone
  have upperStep : FrameStep thisClass position upper (.instruction step) upperAfter :=
    FrameM.instruction_step upperDone
  cases lowerStep with
  | mark noCode => cases noCode
  | exchange known ordinary =>
    by_cases loads : step = .plain (.arrayLoad .reference)
    · subst loads
      obtain ⟨_, _, _, _, lowerTop, lowerHolds, same⟩ := FrameM.arrayLoad_ok lowerDone
      obtain ⟨_, _, _, _, upperTop, upperHolds, rfl⟩ := FrameM.arrayLoad_ok upperDone
      have stack := within.stack
      rw [lowerTop, upperTop] at stack
      obtain ⟨-, array, rest⟩ := (List.forall₂_cons.mp stack).imp_right List.forall₂_cons.mp
      obtain ⟨element, holds, bounded⟩ := array.hasElement upperHolds
      rw [same]
      exact ⟨.cons (lowerHolds.unique holds ▸ bounded) rest, within.locals⟩
    · obtain ⟨results, yields⟩ := FrameM.yields_instruction thisClass position known ordinary loads
      obtain ⟨-, -, same⟩ := yields lowerDone
      obtain ⟨-, -, rfl⟩ := yields upperDone
      rw [same]
      exact ⟨List.rel_append (List.forall₂_same.mpr fun _ _ => .same)
        (List.forall₂_drop _ within.stack), within.locals⟩
  | rearrange rearranges =>
    cases upperStep with
    | rearrange upperRearranges =>
      exact ⟨upperRearranges.forall₂ VType.width_pos VType.width_pos
        (fun bounded => bounded.alike.width_eq) rearranges within.stack, within.locals⟩
    | mark noCode => cases noCode
    | exchange known => cases known
  | @load _ slot _ loads found =>
    cases upperStep with
    | load upperLoads upperFound =>
      have bounded := within.locals slot.toNat
      rw [getD_of_getElem? upperFound, getD_of_getElem? found] at bounded
      exact ⟨.cons (bounded.resolve_left upperLoads.ne_top) within.stack, within.locals⟩
    | mark noCode => cases noCode
    | exchange known => cases known
  | store loads top =>
    cases upperStep with
    | store upperLoads upperTop =>
      have stack := within.stack
      rw [top, upperTop] at stack
      obtain ⟨bounded, rest⟩ := List.forall₂_cons.mp stack
      exact ⟨rest, localWithin_storeLocal within.spaced within.locals bounded⟩
    | mark noCode => cases noCode
    | exchange known => cases known
  | increment found =>
    cases upperStep with
    | increment => exact ⟨within.stack, within.locals⟩
    | mark noCode => cases noCode
    | exchange known => cases known
  | create =>
    cases upperStep with
    | create => exact ⟨.cons .same within.stack, within.locals⟩
    | mark noCode => cases noCode
    | exchange known => cases known
  | @construct constructor old new isConstructor noResult initializes receiver =>
    cases upperStep with
    | @construct _ upperOld upperNew _ _ upperInitializes upperReceiver =>
      have uninitialized := upperInitializes.isInitialized_eq
      obtain rfl : upperOld = old :=
        (forall₂_getElem? within.stack upperReceiver receiver).alike.eq_of_uninitialized uninitialized
      obtain rfl : upperNew = new := upperInitializes.unique initializes
      refine ⟨List.forall₂_map_left_iff.mpr (List.forall₂_map_right_iff.mpr
        ((List.forall₂_drop _ within.stack).imp fun _ _ => Within.replaced uninitialized)),
        fun slot => ?_⟩
      have reference := upperInitializes.isReference.1
      rw [getD_initialized reference, getD_initialized reference]
      rcases within.locals slot with unused | bounded
      · exact .inl (by rw [unused, replaced_top reference])
      · exact .inr (bounded.replaced uninitialized)
    | mark noCode => cases noCode
    | exchange _ ordinary => exact (ordinary _ isConstructor rfl).elim

/-- What an item makes of frames within bounds is within bounds. -/
theorem FrameWithin.after {method : MethodContext} {position : Nat} {item : Item}
    (within : hierarchy.FrameWithin upper lower)
    (upperDone : FlowGraph.after method position upper item = .ok upperAfter)
    (lowerDone : FlowGraph.after method position lower item = .ok lowerAfter) :
    hierarchy.FrameWithin upperAfter lowerAfter := by
  have spaced : Spaced lowerAfter.locals := (spaced_upheld hierarchy lowerAfter.locals.length).after
    (FlowGraph.after_localsStep lowerDone) (Nat.le_refl _) within.spaced
  cases item with
  | label | line =>
    cases upperDone
    cases lowerDone
    exact within
  | instruction step =>
    obtain ⟨stack, locals⟩ := instruction_within within (VFrame.execute_ok.mp upperDone)
      (VFrame.execute_ok.mp lowerDone)
    exact ⟨stack, locals, spaced⟩
  | branch jump =>
    have upperRan := VFrame.executeBranch_ok.mp upperDone
    have lowerRan := VFrame.executeBranch_ok.mp lowerDone
    by_cases throws : jump = .athrow
    · subst throws
      obtain ⟨_, _, upperTop, rfl⟩ := FrameM.athrow_ok upperRan
      obtain ⟨_, _, lowerTop, rfl⟩ := FrameM.athrow_ok lowerRan
      have stack := within.stack
      rw [upperTop, lowerTop] at stack
      exact ⟨.cons (List.forall₂_cons.mp stack).1 .nil, within.locals, spaced⟩
    · have takes := FrameM.exchanges_branch method.descriptor.result throws
      rw [takes.taken lowerRan, takes.taken upperRan]
      exact ⟨List.forall₂_drop _ within.stack, within.locals, within.spaced⟩

end Steps

end Hierarchy

end ClassWeave
