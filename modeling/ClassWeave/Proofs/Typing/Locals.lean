import ClassWeave.Proofs.Typing.Exchanges
import ClassWeave.Proofs.Typing.Invariants

/-!
# Locals of inferred frames

Only stores put something new into the locals. So what holds of the locals on entry, and is kept by
stores and by merging, holds of the locals of all frames that are inferred.
-/

namespace ClassWeave

namespace FrameM

theorem width_replaced {old new : VType} (oldReference : old.isReference = true)
    (newReference : new.isReference = true) (type : VType) :
    (replaced old new type).width = type.width := by
  unfold replaced
  split
  · rename_i same
    rw [same, VType.width_of_isReference oldReference, VType.width_of_isReference newReference]
  · rfl

end FrameM

/-- What an item can do to the locals. -/
inductive LocalsStep (item : Item) (before : List VType) : List VType → Prop where
  | kept : LocalsStep item before before
  | stored {kind : SlotKind} {slot : UInt16} {type : VType}
      (isStore : item = .instruction (.store kind slot)) (width : type.width = kind.width) :
      LocalsStep item before (storeLocal before slot.toNat type)
  | initialized {old new : VType} (oldReference : old.isReference = true)
      (newReference : new.isReference = true) :
      LocalsStep item before (before.map (FrameM.replaced old new))

theorem Initializes.isReference {thisClass : BinaryName} {constructor : MethodRef} {old new : VType}
    (initializes : Initializes thisClass constructor old new) :
    old.isReference = true ∧ new.isReference = true := by
  cases initializes <;> exact ⟨rfl, rfl⟩

theorem FlowGraph.after_localsStep {method : MethodContext} {position : Nat} {item : Item}
    {before after : VFrame} (done : FlowGraph.after method position before item = .ok after) :
    LocalsStep item before.locals after.locals := by
  cases after_frameStep done with
  | store loads => exact .stored rfl loads.width_eq
  | construct _ _ initializes =>
    exact .initialized initializes.isReference.1 initializes.isReference.2
  | mark | exchange | rearrange | load | increment | create | branch | throw => exact .kept

section Stores

variable {locals : List VType} {slot index : Nat} {type : VType}

theorem length_storeLocal :
    (storeLocal locals slot type).length = max locals.length (slot + type.width) := by
  simp only [storeLocal]
  split <;> split <;> split <;> simp <;> omega

theorem getD_set_top (locals : List VType) (slot index : Nat) :
    (locals.set slot .top).getD index .top =
      if index = slot then .top else locals.getD index .top := by
  simp only [List.getD_eq_getElem?_getD, List.getElem?_set]
  grind

theorem getD_set (inside : slot < locals.length) (index : Nat) :
    (locals.set slot type).getD index .top =
      if index = slot then type else locals.getD index .top := by
  simp only [List.getD_eq_getElem?_getD, List.getElem?_set]
  grind

/-- What a store leaves in each slot. -/
theorem storeLocal_getD (index : Nat) : (storeLocal locals slot type).getD index .top =
    if index = slot then type
    else if index = slot + 1 ∧ (type.width = 2 ∨ (locals.getD slot .top).width = 2) then .top
    else if index + 1 = slot ∧ (locals.getD index .top).width = 2 then .top
    else locals.getD index .top := by
  have width := type.width_eq
  have room : slot < (locals ++
      List.replicate (slot + type.width - locals.length) VerificationType.top).length := by
    simp only [List.length_append, List.length_replicate]
    omega
  simp only [storeLocal, ← Hierarchy.getD_padded locals (slot + type.width - locals.length)]
  generalize locals ++ List.replicate _ VerificationType.top = padded at room ⊢
  -- the store may first cut a wide local before it, then one that starts at its slot
  generalize cutBefore : (if 0 < slot ∧ (padded.getD (slot - 1) .top).width = 2 then
    padded.set (slot - 1) .top else padded) = first
  have firstLength : first.length = padded.length := by
    rw [← cutBefore]
    split <;> simp
  have firstAt (index : Nat) : first.getD index .top =
      if index + 1 = slot ∧ (padded.getD index .top).width = 2 then .top
      else padded.getD index .top := by
    rw [← cutBefore]
    split
    · rw [getD_set_top]
      grind
    · grind
  generalize cutHere : (if (first.getD slot .top).width = 2 ∧ type.width = 1 then
    first.set (slot + 1) .top else first) = second
  have secondLength : second.length = padded.length := by
    rw [← cutHere, ← firstLength]
    split <;> simp
  have secondAt (index : Nat) : second.getD index .top =
      if index = slot + 1 ∧ (padded.getD slot .top).width = 2 ∧ type.width = 1 then .top
      else first.getD index .top := by
    have here : first.getD slot .top = padded.getD slot .top := by
      rw [firstAt, if_neg (by omega)]
    rw [← cutHere, here]
    split
    · rw [getD_set_top]
      grind
    · grind
  split
  · rw [getD_set_top, getD_set (by omega), secondAt, firstAt]
    grind
  · rw [getD_set (by omega), secondAt, firstAt]
    grind

/-- What a store leaves in the locals is what was there, apart from the new value. -/
theorem mem_storeLocal {other : VType} (member : other ∈ storeLocal locals slot type)
    (usable : other ≠ .top) : other = type ∨ other ∈ locals := by
  obtain ⟨index, found⟩ := List.getElem?_of_mem member
  have holds : (storeLocal locals slot type).getD index .top = other := getD_of_getElem? found
  rw [storeLocal_getD] at holds
  split at holds
  · exact .inl holds.symm
  · split at holds
    · exact (usable holds.symm).elim
    · split at holds
      · exact (usable holds.symm).elim
      · exact .inr (List.mem_of_getElem? (getElem?_of_getD usable holds))

end Stores

/-- The slot after a wide local is unusable. -/
def Spaced (locals : List VType) : Prop :=
  ∀ slot, (locals.getD slot .top).width = 2 → locals.getD (slot + 1) .top = .top

/-- All locals end within as many slots. -/
def FitsIn (limit : Nat) (locals : List VType) : Prop :=
  ∀ slot < locals.length, slot + (locals.getD slot .top).width ≤ limit

theorem Spaced.moved {locals : List VType} (spaced : Spaced locals) (move : Nat → Nat) :
    Spaced (locals.map (VType.moved move)) := by
  intro slot wide
  rw [Hierarchy.getD_moved] at wide ⊢
  rw [VType.moved_width] at wide
  rw [spaced slot wide, VType.moved_top]

/-- A value of one slot that is stored where there has been one leaves the other locals alone. -/
theorem storeLocal_getD_other {locals : List VType} {slot index : Nat} {type : VType}
    (spaced : Spaced locals) (usable : locals.getD slot .top ≠ .top) (single : type.width = 1)
    (other : index ≠ slot) :
    (storeLocal locals slot type).getD index .top = locals.getD index .top := by
  rw [storeLocal_getD, if_neg other]
  split
  · rename_i covered
    obtain ⟨rfl, wide | wide⟩ := covered
    · omega
    · exact (spaced slot wide).symm
  · split
    · rename_i cut
      obtain ⟨rfl, wide⟩ := cut
      exact (usable (spaced index wide)).elim
    · rfl

section Shape

variable {type : VType} {locals rest : List VType} {limit : Nat}

theorem spaced_nil : Spaced [] := by
  intro slot wide
  simp [VerificationType.width] at wide

theorem spaced_cons :
    Spaced (type :: rest) ↔ (type.width = 2 → rest.getD 0 .top = .top) ∧ Spaced rest := by
  constructor
  · intro spaced
    exact ⟨fun wide => by simpa using spaced 0 (by simpa using wide), fun slot wide => by
      simpa using spaced (slot + 1) (by simpa using wide)⟩
  · rintro ⟨first, others⟩ (_ | slot) wide
    · simpa using first (by simpa using wide)
    · simpa using others slot (by simpa using wide)

theorem spaced_cons_top : Spaced (.top :: rest) ↔ Spaced rest := by
  rw [spaced_cons, and_iff_right]
  intro wide
  simp [VerificationType.width] at wide

theorem fitsIn_cons :
    FitsIn (limit + 1) (type :: rest) ↔ type.width ≤ limit + 1 ∧ FitsIn limit rest := by
  constructor
  · intro fits
    refine ⟨by simpa using fits 0 (by simp), fun slot inside => ?_⟩
    have := fits (slot + 1) (by simpa using inside)
    rw [List.getD_cons_succ] at this
    omega
  · rintro ⟨first, others⟩ (_ | slot) inside
    · simpa using first
    · have := others slot (by simpa using inside)
      rw [List.getD_cons_succ]
      omega

theorem Spaced.parameter (spaced : Spaced rest) (type : FieldType) :
    Spaced (VFrame.parameterLocals type ++ rest) := by
  simp only [VFrame.parameterLocals]
  split
  · exact spaced_cons.mpr ⟨fun _ => rfl, spaced_cons_top.mpr spaced⟩
  · rename_i single
    exact spaced_cons.mpr ⟨fun wide => (single (by simp [wide])).elim, spaced⟩

theorem FitsIn.parameter (fits : FitsIn rest.length rest) (type : FieldType) :
    FitsIn (VFrame.parameterLocals type ++ rest).length (VFrame.parameterLocals type ++ rest) := by
  simp only [VFrame.parameterLocals]
  split
  · rename_i wide
    refine fitsIn_cons.mpr ⟨?_, fitsIn_cons.mpr ⟨?_, fits⟩⟩ <;> simp_all [VerificationType.width]
  · rename_i single
    have width := (VType.ofFieldType type).width_eq
    exact fitsIn_cons.mpr ⟨by simp_all, fits⟩

end Shape

namespace VFrame

theorem receiver_cases (method : MethodContext) :
    receiverLocals method = [] ∧ method.isStatic = true ∨
      ∃ type : VType, receiverLocals method = [type] ∧ type.width = 1 ∧ method.isStatic = false := by
  unfold receiverLocals
  split
  · rename_i isStatic
    exact .inl ⟨rfl, isStatic⟩
  · rename_i notStatic
    have isDynamic : method.isStatic = false := by simpa using notStatic
    right
    split
    · exact ⟨_, rfl, rfl, isDynamic⟩
    · exact ⟨_, rfl, rfl, isDynamic⟩

/-- What holds of no locals, and of the locals of one parameter more, holds on entry. -/
theorem initial_induction {holds : List VType → Prop} (none : holds [])
    (parameter : ∀ type {rest : List VType}, holds rest → holds (parameterLocals type ++ rest))
    (receiver : ∀ {type : VType} {rest : List VType}, type.width = 1 → holds rest →
      holds (type :: rest))
    (method : MethodContext) : holds (initial method).locals := by
  have parameters (types : List FieldType) : holds (types.flatMap parameterLocals) := by
    induction types with
    | nil => exact none
    | cons type types ih => exact List.flatMap_cons ▸ parameter type ih
  rw [initial]
  obtain ⟨same, -⟩ | ⟨type, same, width, -⟩ := receiver_cases method
  · rw [same]
    exact parameters _
  · rw [same]
    exact receiver width (parameters _)

theorem initial_spaced (method : MethodContext) : Spaced (initial method).locals :=
  initial_induction spaced_nil (fun type _ spaced => spaced.parameter type)
    (fun width spaced => spaced_cons.mpr ⟨fun wide => by omega, spaced⟩) method

theorem initial_fitsIn (method : MethodContext) :
    FitsIn (initial method).locals.length (initial method).locals := by
  let holds (locals : List VType) : Prop := FitsIn locals.length locals
  have none : holds [] := fun slot inside => (Nat.not_lt_zero slot inside).elim
  exact initial_induction none (fun type _ fits => fits.parameter type)
    (fun width fits => fitsIn_cons.mpr ⟨by omega, fits⟩) method

/-- There is a local for each parameter slot. -/
theorem length_initial (method : MethodContext) : (initial method).locals.length =
    method.descriptor.parameterSlots (!method.isStatic) := by
  have width (type : FieldType) : (parameterLocals type).length = type.width := by
    rcases type with (_ | _ | _ | _ | _ | _ | _ | _) | _ <;> rfl
  have parameters (types : List FieldType) (base : Nat) :
      types.foldr (fun type slots => type.width + slots) base =
        base + (types.flatMap parameterLocals).length := by
    induction types with
    | nil => rfl
    | cons type types ih =>
      rw [List.foldr_cons, ih, List.flatMap_cons, List.length_append, width]
      omega
  rw [initial, MethodDescriptor.parameterSlots, parameters, List.length_append]
  obtain ⟨same, isStatic⟩ | ⟨type, same, -, isStatic⟩ := receiver_cases method <;>
    simp [same, isStatic]

end VFrame

namespace Hierarchy

variable {hierarchy : Hierarchy}

theorem mergeTypes_width {a b merged : VType}
    (found : hierarchy.mergeTypes a b = .ok (some merged)) :
    merged.width = a.width ∧ merged.width = b.width := by
  unfold mergeTypes at found
  split at found
  · obtain ⟨type, -, same⟩ := Outcome.map_ok.mp found
    cases same
    exact ⟨rfl, rfl⟩
  · cases found
    exact ⟨rfl, rfl⟩
  · cases found
    exact ⟨rfl, rfl⟩
  · split at found
    · rename_i same
      cases found
      exact ⟨rfl, congrArg _ same⟩
    · cases found

theorem mergeSlots_spaced {covered : Bool} {seen : List VType} {pairs : List (VType × VType)}
    {merged : List VType} (found : hierarchy.mergeSlots covered seen pairs = .ok merged) :
    ∃ slots, merged = slots.reverse ++ seen ∧
      List.Forall₂ (fun pair slot => slot = .top ∨
        slot.width = pair.1.width ∧ slot.width = pair.2.width) pairs slots ∧
      (covered = true → slots.getD 0 .top = .top) ∧ Spaced slots := by
  induction pairs generalizing covered seen with
  | nil =>
    cases found
    exact ⟨[], rfl, .nil, fun _ => rfl, spaced_nil⟩
  | cons pair rest ih =>
    rw [mergeSlots] at found
    split at found
    · obtain ⟨slots, rfl, widths, -, spaced⟩ := ih found
      exact ⟨.top :: slots, by simp, .cons (.inl rfl) widths, fun _ => rfl,
        spaced_cons_top.mpr spaced⟩
    · rename_i free
      obtain ⟨type, typeFound, later⟩ := Outcome.bind_ok.mp found
      obtain ⟨slots, rfl, widths, next, spaced⟩ := ih later
      refine ⟨type.getD .top :: slots, by simp, .cons ?_ widths, fun isCovered => (free isCovered).elim,
        spaced_cons.mpr ⟨fun wide => next (by simp [wide]), spaced⟩⟩
      cases type with
      | none => exact .inl rfl
      | some type => exact .inr (mergeTypes_width typeFound)

/-- Merged locals are unusable, or as wide as both that they are merged from. -/
theorem mergeLocals_spaced {a b merged : List VType}
    (found : hierarchy.mergeLocals a b = .ok merged) :
    (∀ slot, merged.getD slot .top = .top ∨
      (merged.getD slot .top).width = (a.getD slot .top).width ∧
        (merged.getD slot .top).width = (b.getD slot .top).width) ∧ Spaced merged := by
  obtain ⟨reversed, reversedFound, same⟩ := Outcome.bind_ok.mp found
  cases Outcome.pure_ok.mp same
  obtain ⟨slots, rfl, widths, -, spaced⟩ := mergeSlots_spaced reversedFound
  rw [List.append_nil]
  have trimmed (slot : Nat) : ((slots.reverse.dropWhile (· = .top)).reverse).getD slot .top =
      slots.getD slot .top := getD_trimmed slots slot
  simp only [Spaced, trimmed]
  refine ⟨fun slot => ?_, spaced⟩
  by_cases inside : slot < slots.length
  · have aligned : slot < (alignLocals a b).length := widths.length_eq ▸ inside
    have both := widths.get aligned inside
    rw [List.get_eq_getElem, List.get_eq_getElem, getElem_alignLocals] at both
    rw [← List.getElem_eq_getD (h := inside)]
    exact both
  · left
    rw [List.getD_eq_getElem?_getD, List.getElem?_eq_none (by omega)]
    rfl

end Hierarchy

/-- A property of locals that is kept as long as there are not more than `limit` of them. -/
structure Upheld (hierarchy : Hierarchy) (limit : Nat) (holds : List VType → Prop) : Prop where
  stored {locals : List VType} {slot : Nat} {type : VType} : holds locals →
    (storeLocal locals slot type).length ≤ limit → holds (storeLocal locals slot type)
  initialized {locals : List VType} {old new : VType} : old.isReference = true →
    new.isReference = true → holds locals → holds (locals.map (FrameM.replaced old new))
  merged {a b merged : List VType} :
    hierarchy.mergeLocals a b = .ok merged → holds a → holds b → holds merged

section Upheld

variable {hierarchy : Hierarchy} {limit : Nat} {holds : List VType → Prop}

theorem Upheld.after (upheld : Upheld hierarchy limit holds) {item : Item}
    {before after : List VType} (step : LocalsStep item before after) (room : after.length ≤ limit)
    (held : holds before) : holds after := by
  cases step with
  | kept => exact held
  | stored => exact upheld.stored held room
  | initialized oldReference newReference =>
    exact upheld.initialized oldReference newReference held

theorem replaced_top {old new : VType} (oldReference : old.isReference = true) :
    FrameM.replaced old new .top = .top := by
  rw [FrameM.replaced, if_neg]
  rintro rfl
  cases oldReference

theorem getD_initialized {old new : VType} (oldReference : old.isReference = true)
    (locals : List VType) (slot : Nat) : (locals.map (FrameM.replaced old new)).getD slot .top =
      FrameM.replaced old new (locals.getD slot .top) := by
  rw [List.getD_eq_getElem?_getD, List.getElem?_map, List.getD_eq_getElem?_getD]
  cases locals[slot]? with
  | none => exact (replaced_top oldReference).symm
  | some type => rfl

theorem spaced_upheld (hierarchy : Hierarchy) (limit : Nat) : Upheld hierarchy limit Spaced where
  stored {locals slot type} spaced _ := by
    intro index wide
    have before := spaced index
    have width := type.width_eq
    simp only [storeLocal_getD] at wide ⊢
    grind [VerificationType.width]
  initialized {locals old new} oldReference newReference spaced := by
    intro slot wide
    rw [getD_initialized oldReference] at wide ⊢
    rw [FrameM.width_replaced oldReference newReference] at wide
    rw [spaced slot wide, FrameM.replaced, if_neg]
    rintro rfl
    cases oldReference
  merged found _ _ := (Hierarchy.mergeLocals_spaced found).2

theorem fitsIn_upheld (hierarchy : Hierarchy) (limit : Nat) :
    Upheld hierarchy limit (FitsIn limit) where
  stored {locals slot type} fits room := by
    intro index inside
    have before := fits index
    have width := (locals.getD index .top).width_eq
    rw [length_storeLocal] at room inside
    rw [storeLocal_getD]
    by_cases within : index < locals.length
    · grind [VerificationType.width]
    · have unused : locals.getD index .top = .top := by
        rw [List.getD_eq_getElem?_getD, List.getElem?_eq_none (by omega)]
        rfl
      grind [VerificationType.width]
  initialized {locals old new} oldReference newReference fits := by
    intro slot inside
    rw [getD_initialized oldReference, FrameM.width_replaced oldReference newReference]
    exact fits slot (by simpa using inside)
  merged {a b merged} found fits otherFits := by
    intro slot inside
    have length := Hierarchy.mergeLocals_length found
    have first := fits slot
    have second := otherFits slot
    have width := (a.getD slot .top).width_eq
    have otherWidth := (b.getD slot .top).width_eq
    rcases (Hierarchy.mergeLocals_spaced found).1 slot with unused | ⟨same, otherSame⟩
    · rw [unused]
      simp only [VerificationType.width]
      omega
    · rcases Nat.lt_or_ge slot a.length with within | beyond
      · exact same ▸ first within
      · exact otherSame ▸ second (by omega)

end Upheld

/-- What is kept of the locals is kept wherever frames go. -/
theorem Upheld.sustained {hierarchy : Hierarchy} {limit : Nat} {holds : List VType → Prop}
    (upheld : Upheld hierarchy limit holds) (body : Body) (method : MethodContext) :
    Sustained hierarchy body method limit fun _ frame => holds frame.locals where
  passed _ done fits passes held := by
    have heldAfter := upheld.after (FlowGraph.after_localsStep done) fits held
    cases passes with
    | successor | thrownAfter => exact heldAfter
    | thrownBefore => exact held
  merged found := upheld.merged (Hierarchy.mergeFrames_parts found).2

/-- What holds of the locals on entry and is kept holds of the locals of all frames. -/
theorem Body.inferFrames_locals {body : Body} {method : MethodContext} {hierarchy : Hierarchy}
    {typing : Typing} {limit : Nat} {holds : List VType → Prop}
    (found : body.inferFrames method hierarchy = .ok typing)
    (upheld : Upheld hierarchy limit holds) (room : typing.maxLocals ≤ limit)
    (entry : holds (VFrame.initial method).locals) {position : Nat} {frame : VFrame}
    (frameFound : typing.frameAt position = some frame) : holds frame.locals :=
  inferFrames_hold found (upheld.sustained body method) room entry frameFound

theorem Body.inferFrames_spaced {body : Body} {method : MethodContext} {hierarchy : Hierarchy}
    {typing : Typing} (found : body.inferFrames method hierarchy = .ok typing) {position : Nat}
    {frame : VFrame} (frameFound : typing.frameAt position = some frame) : Spaced frame.locals :=
  inferFrames_locals found (spaced_upheld hierarchy _) (Nat.le_refl _)
    (VFrame.initial_spaced method) frameFound

end ClassWeave
