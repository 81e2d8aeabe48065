import Mathlib.Data.Nat.Find
import ClassWeave.Proofs.Hook.Splice

/-!
# Where a trigger is

The place of a hook, read off the whole body: after the first call, the first local that is
accessed, and so on. Any number of such calls may follow, and the search may come to nothing at each
stage. It puts one hook at exactly the place described here, and none in if there is no such place.
-/

namespace ClassWeave

section First

variable {β : Type} {select : Item → Option β} {items : List Item} {start place : Nat} {found : β}

/-- The first of the items from some position on that a question has an answer for. -/
structure FirstOf (select : Item → Option β) (items : List Item) (start place : Nat) (found : β) :
    Prop where
  ahead : start ≤ place
  answered : items[place]?.bind select = some found
  skipped : ∀ other, start ≤ other → other < place → items[other]?.bind select = none

namespace FirstOf

theorem unique {otherPlace : Nat} {otherFound : β} (first : FirstOf select items start place found)
    (other : FirstOf select items start otherPlace otherFound) :
    place = otherPlace ∧ found = otherFound := by
  have same : place = otherPlace := by
    rcases Nat.lt_trichotomy place otherPlace with before | same | behind
    · have skipped := other.skipped place first.ahead before
      rw [first.answered] at skipped
      cases skipped
    · exact same
    · have skipped := first.skipped otherPlace other.ahead behind
      rw [other.answered] at skipped
      cases skipped
  subst same
  exact ⟨rfl, Option.some.inj (first.answered.symm.trans other.answered)⟩

theorem within (first : FirstOf select items start place found) : place < items.length := by
  have answered := first.answered
  by_contra outside
  rw [List.getElem?_eq_none (by omega)] at answered
  cases answered

/-- Either none of the items is one of those looked for, or there is a first one. -/
theorem exists_or_none (select : Item → Option β) (items : List Item) (start : Nat) :
    (∀ other, start ≤ other → items[other]?.bind select = none) ∨
      ∃ place found, FirstOf select items start place found := by
  by_cases exist : ∃ place, start ≤ place ∧ (items[place]?.bind select).isSome
  · obtain ⟨ahead, isSome⟩ := Nat.find_spec exist
    obtain ⟨found, answered⟩ := Option.isSome_iff_exists.mp isSome
    refine .inr ⟨Nat.find exist, found, ahead, answered, fun other later before => ?_⟩
    have fails := Nat.find_min exist before
    simpa [later] using fails
  · refine .inl fun other later => ?_
    by_contra isSome
    exact exist ⟨other, later, Option.isSome_iff_ne_none.mpr isSome⟩

end FirstOf

end First

/-! ### What a trigger is made of -/

/-- The method that an item calls, if it is the one looked for. -/
def CallSite.calledBy? (call : CallSite) : Item → Option MethodRef
  | .instruction (.invoke _ method) => if call.isCallOf method then some method else none
  | _ => none

namespace Item

/-- The local that an item loads or stores. -/
def accessedSlot? : Item → Option UInt16
  | instruction step => step.accessedSlot?
  | _ => none

/-- Where an item jumps to, if it is a conditional jump or a `goto`. -/
def jumpTarget? : Item → Option Label
  | branch jump => jump.jumpTarget?
  | _ => none

/-- A label, if an item is its place. -/
def placed? (mark : Label) : Item → Option Label
  | label seen => if seen = mark then some seen else none
  | _ => none

end Item

/-- After the first such call, the first item that accesses a local, and the local. -/
def CallSite.AccessedAt (call : CallSite) (items : List Item) (access : Nat) (slot : UInt16) :
    Prop :=
  ∃ place method, FirstOf call.calledBy? items 0 place method ∧
    FirstOf Item.accessedSlot? items (place + 1) access slot

theorem CallSite.AccessedAt.unique {call : CallSite} {items : List Item} {access otherAccess : Nat}
    {slot otherSlot : UInt16} (accessed : call.AccessedAt items access slot)
    (other : call.AccessedAt items otherAccess otherSlot) :
    access = otherAccess ∧ slot = otherSlot := by
  obtain ⟨place, method, called, first⟩ := accessed
  obtain ⟨otherPlace, otherMethod, otherCalled, otherFirst⟩ := other
  obtain ⟨rfl, -⟩ := called.unique otherCalled
  exact first.unique otherFirst

/-- The trigger is there: the hook on a local belongs before the item at a position. -/
inductive TriggerShape.TriggersAt (items : List Item) : TriggerShape → Nat → UInt16 → Prop where
  | entry (slot : UInt16) : TriggersAt items (.entry slot) 0 slot
  | entrySelect (slot : UInt16) (ifTrue ifFalse : FieldRef) :
    TriggersAt items (.entrySelect slot ifTrue ifFalse) 0 slot
  | callBranch {call : CallSite} {access jump place : Nat} {slot : UInt16} {target found : Label}
    (accessed : call.AccessedAt items access slot)
    (jumps : FirstOf Item.jumpTarget? items (access + 1) jump target)
    (marked : FirstOf (Item.placed? target) items (jump + 1) place found) :
    TriggersAt items (.callBranch call) (place + 1) slot
  | callResult {call : CallSite} {access : Nat} {slot : UInt16}
    (accessed : call.AccessedAt items access slot) :
    TriggersAt items (.callResult call) (access + 1) slot
  | aggregate {call : CallSite} {chunkOwner : BinaryName} {chunkMethod : UnqualifiedName}
    {access : Nat} {slot : UInt16} (accessed : call.AccessedAt items access slot)
    (room : slot.toNat + 3 ≤ 65535) :
    TriggersAt items (.aggregate call chunkOwner chunkMethod) (access + 1) slot
  | cache {call : CallSite} {field : FieldRef} {referenceClass : BinaryName} {access : Nat}
    {slot : UInt16} (accessed : call.AccessedAt items access slot) :
    TriggersAt items (.cache call field referenceClass) (access + 1) slot

/-- A body has at most one place for a hook. -/
theorem TriggerShape.TriggersAt.unique {shape : TriggerShape} {items : List Item}
    {position otherPosition : Nat} {slot otherSlot : UInt16}
    (triggers : shape.TriggersAt items position slot)
    (other : shape.TriggersAt items otherPosition otherSlot) :
    position = otherPosition ∧ slot = otherSlot := by
  cases triggers with
  | entry | entrySelect => cases other; exact ⟨rfl, rfl⟩
  | callBranch accessed jumps marked =>
    cases other with
    | callBranch otherAccessed otherJumps otherMarked =>
      obtain ⟨rfl, rfl⟩ := accessed.unique otherAccessed
      obtain ⟨rfl, rfl⟩ := jumps.unique otherJumps
      obtain ⟨rfl, -⟩ := marked.unique otherMarked
      exact ⟨rfl, rfl⟩
  | callResult accessed =>
    cases other with
    | callResult otherAccessed => simpa using accessed.unique otherAccessed
  | aggregate accessed room =>
    cases other with
    | aggregate otherAccessed otherRoom => simpa using accessed.unique otherAccessed
  | cache accessed =>
    cases other with
    | cache otherAccessed => simpa using accessed.unique otherAccessed

/-- The item where a local is accessed is an instruction that does so. -/
theorem FirstOf.accesses {items : List Item} {start place : Nat} {slot : UInt16}
    (first : FirstOf Item.accessedSlot? items start place slot) :
    ∃ step, items[place]? = some (.instruction step) ∧ step.accessedSlot? = some slot := by
  obtain ⟨item, there, selected⟩ := Option.bind_eq_some_iff.mp first.answered
  cases item with
  | label | line | branch => cases selected
  | instruction step => exact ⟨step, there, selected⟩

theorem CallSite.AccessedAt.within {call : CallSite} {items : List Item} {access : Nat}
    {slot : UInt16} (accessed : call.AccessedAt items access slot) : access < items.length := by
  obtain ⟨_, _, -, first⟩ := accessed
  exact first.within

theorem TriggerShape.TriggersAt.within {shape : TriggerShape} {items : List Item} {position : Nat}
    {slot : UInt16} (triggers : shape.TriggersAt items position slot) :
    position ≤ items.length := by
  cases triggers with
  | entry | entrySelect => exact Nat.zero_le _
  | callBranch accessed jumps marked => exact marked.within
  | callResult accessed | aggregate accessed | cache accessed => exact accessed.within

/-! ### The search from a position on -/

namespace TriggerSearch

variable {β : Type} {plan : HookPlan} {search : TriggerSearch} {items : List Item}
  {start place : Nat} {slot : UInt16} {call : CallSite}

/-- The search over the items from a position on. -/
def resume (plan : HookPlan) (search : TriggerSearch) (items : List Item) (start : Nat) :
    TriggerSearch × List Item :=
  search.finish plan (items.take start).reverse (items.drop start)

/-- What comes out of a search that places its hook before the item at a position. -/
def placedAt (plan : HookPlan) (nextLabel : Label) (items : List Item) (position : Nat)
    (slot : UInt16) : TriggerSearch × List Item :=
  (⟨.done, HookSite.nextLabel plan.target.shape nextLabel⟩,
    items.take position ++ HookSite.items plan.call plan.target slot nextLabel
      ++ items.drop position)

theorem resume_end (past : items.length ≤ start) :
    search.resume plan items start = (search, items) := by
  simp [resume, finish, List.drop_eq_nil_of_le past, List.take_of_length_le past]

private theorem drop_at {item : Item} (there : items[start]? = some item) :
    items.drop start = item :: items.drop (start + 1) := by
  obtain ⟨inside, rfl⟩ := List.getElem?_eq_some_iff.mp there
  exact List.drop_eq_getElem_cons inside

private theorem take_through {item : Item} (there : items[start]? = some item) :
    items.take (start + 1) = items.take start ++ [item] := by
  rw [List.take_add_one, there, Option.toList_some]

/-- An item that the search only takes note of. -/
theorem resume_goesOn {item : Item} {next : TriggerSearch} (there : items[start]? = some item)
    (advanced : search.advance plan item = (next, [])) :
    search.resume plan items start = next.resume plan items (start + 1) := by
  rw [resume, drop_at there, finish, advanced, resume, take_through there]
  simp

/-- An item that the hook goes behind. -/
theorem resume_places {item : Item} (there : items[start]? = some item)
    (advanced : search.advance plan item = search.placeHook plan slot) :
    search.resume plan items start = placedAt plan search.nextLabel items (start + 1) slot := by
  rw [resume, drop_at there, finish, advanced, placeHook]
  simp only
  rw [finish_done rfl, placedAt, take_through there]
  simp

/-- A search that has a use only for items of some kind goes over all the others. -/
def WaitsFor (search : TriggerSearch) (plan : HookPlan) (select : Item → Option β) : Prop :=
  ∀ item, select item = none → search.advance plan item = (search, [])

namespace WaitsFor

variable {select : Item → Option β} {found : β}

private theorem resume_skip (waits : search.WaitsFor plan select)
    (skipped : items[start]?.bind select = none) :
    search.resume plan items start = search.resume plan items (start + 1) := by
  cases there : items[start]? with
  | none =>
    have past := List.getElem?_eq_none_iff.mp there
    rw [resume_end past, resume_end (by omega)]
  | some item =>
    rw [there, Option.bind_some] at skipped
    exact resume_goesOn there (waits item skipped)

/-- The search gets to the first item that it has a use for as it is. -/
theorem resume_first (waits : search.WaitsFor plan select)
    (first : FirstOf select items start place found) :
    search.resume plan items start = search.resume plan items place := by
  obtain ⟨ahead, answered, skipped⟩ := first
  clear answered
  induction place, ahead using Nat.le_induction with
  | base => rfl
  | succ place ahead ih =>
    rw [ih fun other later before => skipped other later (by omega)]
    exact waits.resume_skip (skipped place ahead (Nat.lt_succ_self place))

/-- The search gets to the end as it is if there is no item that it has a use for. -/
theorem resume_none (waits : search.WaitsFor plan select)
    (skipped : ∀ other, start ≤ other → items[other]?.bind select = none) :
    search.resume plan items start = (search, items) := by
  induction remaining : items.length - start generalizing start with
  | zero => exact resume_end (by omega)
  | succ count ih =>
    rw [waits.resume_skip (skipped start (Nat.le_refl start))]
    exact ih (fun other later => skipped other (by omega)) (by omega)

end WaitsFor

/-! ### One stage after the other -/

variable {nextLabel : Label} {step : SymInstruction}

theorem advance_invoke {kind : InvokeKind} {method : MethodRef} :
    advance plan ⟨.awaitingCall, nextLabel⟩ (.instruction (.invoke kind method)) =
      if plan.target.shape.call?.any (·.isCallOf method) then (⟨.awaitingLocal, nextLabel⟩, [])
      else (⟨.awaitingCall, nextLabel⟩, []) := rfl

theorem advance_unaccessed (unaccessed : step.accessedSlot? = none) :
    advance plan ⟨.awaitingLocal, nextLabel⟩ (.instruction step) =
      (⟨.awaitingLocal, nextLabel⟩, []) := by
  unfold advance
  simp only [unaccessed]

theorem advance_accessed_callBranch (shape : plan.target.shape = .callBranch call)
    (accesses : step.accessedSlot? = some slot) :
    advance plan ⟨.awaitingLocal, nextLabel⟩ (.instruction step) =
      (⟨.awaitingJump slot, nextLabel⟩, []) := by
  unfold advance
  simp only [shape, accesses]

theorem advance_accessed (shape : ∀ call, plan.target.shape ≠ .callBranch call)
    (accesses : step.accessedSlot? = some slot) :
    advance plan ⟨.awaitingLocal, nextLabel⟩ (.instruction step) =
      if HookSite.hasScratchLocals plan.target.shape slot then
        placeHook plan ⟨.awaitingLocal, nextLabel⟩ slot
      else (⟨.abandoned, nextLabel⟩, []) := by
  unfold advance
  simp only [accesses]

theorem advance_branch {jump : Branch Label} :
    advance plan ⟨.awaitingJump slot, nextLabel⟩ (.branch jump) =
      match jump.jumpTarget? with
      | some label => (⟨.awaitingLabel slot label, nextLabel⟩, [])
      | none => (⟨.awaitingJump slot, nextLabel⟩, []) := rfl

theorem advance_label {target seen : Label} :
    advance plan ⟨.awaitingLabel slot target, nextLabel⟩ (.label seen) =
      if seen = target then placeHook plan ⟨.awaitingLabel slot target, nextLabel⟩ slot
      else (⟨.awaitingLabel slot target, nextLabel⟩, []) := rfl

theorem awaitingCall_waits (shape : plan.target.shape.call? = some call) :
    WaitsFor ⟨.awaitingCall, nextLabel⟩ plan call.calledBy? := by
  intro item other
  cases item with
  | label | line | branch => rfl
  | instruction step =>
    cases step with
    | invoke kind method =>
      have different : call.isCallOf method = false := by
        simpa [CallSite.calledBy?] using other
      simp [advance_invoke, shape, different]
    | _ => rfl

theorem awaitingLocal_waits : WaitsFor ⟨.awaitingLocal, nextLabel⟩ plan Item.accessedSlot? := by
  intro item other
  cases item with
  | label | line | branch => rfl
  | instruction step => exact advance_unaccessed other

theorem awaitingJump_waits : WaitsFor ⟨.awaitingJump slot, nextLabel⟩ plan Item.jumpTarget? := by
  intro item other
  cases item with
  | label | line | instruction => rfl
  | branch jump =>
    rw [Item.jumpTarget?] at other
    simp [advance_branch, other]

theorem awaitingLabel_waits {target : Label} :
    WaitsFor ⟨.awaitingLabel slot target, nextLabel⟩ plan (Item.placed? target) := by
  intro item other
  cases item with
  | branch | line | instruction => rfl
  | label seen =>
    have different : seen ≠ target := by simpa [Item.placed?] using other
    simp [advance_label, different]

theorem abandoned_waits :
    WaitsFor ⟨.abandoned, nextLabel⟩ plan (fun _ => (none : Option Unit)) := by
  intro item _
  cases item <;> rfl

/-- With the call, the search for the local begins. -/
theorem resume_call {method : MethodRef} (shape : plan.target.shape.call? = some call)
    (called : FirstOf call.calledBy? items start place method) :
    resume plan ⟨.awaitingCall, nextLabel⟩ items start =
      resume plan ⟨.awaitingLocal, nextLabel⟩ items (place + 1) := by
  rw [(awaitingCall_waits shape).resume_first called]
  obtain ⟨item, there, selected⟩ := Option.bind_eq_some_iff.mp called.answered
  refine resume_goesOn there ?_
  cases item with
  | label | line | branch => cases selected
  | instruction step =>
    cases step with
    | invoke kind method =>
      have isCall : call.isCallOf method := by
        by_contra different
        simp [CallSite.calledBy?, different] at selected
      simp [advance_invoke, shape, isCall]
    | _ => cases selected

/-- With the local, a search for the end of a branch goes on to look for a jump. -/
theorem resume_local_callBranch (shape : plan.target.shape = .callBranch call)
    (accessed : FirstOf Item.accessedSlot? items start place slot) :
    resume plan ⟨.awaitingLocal, nextLabel⟩ items start =
      resume plan ⟨.awaitingJump slot, nextLabel⟩ items (place + 1) := by
  obtain ⟨step, there, selected⟩ := accessed.accesses
  rw [awaitingLocal_waits.resume_first accessed]
  exact resume_goesOn there (advance_accessed_callBranch shape selected)

/-- With the local, every other search is over: it places its hook, or has no locals for that. -/
theorem resume_local (shape : ∀ call, plan.target.shape ≠ .callBranch call)
    (accessed : FirstOf Item.accessedSlot? items start place slot) :
    resume plan ⟨.awaitingLocal, nextLabel⟩ items start =
      if HookSite.hasScratchLocals plan.target.shape slot then
        placedAt plan nextLabel items (place + 1) slot
      else (⟨.abandoned, nextLabel⟩, items) := by
  obtain ⟨step, there, selected⟩ := accessed.accesses
  rw [awaitingLocal_waits.resume_first accessed]
  split
  · rename_i room
    exact resume_places there ((advance_accessed shape selected).trans (if_pos room))
  · rename_i crowded
    have abandons : advance plan ⟨.awaitingLocal, nextLabel⟩ (.instruction step) =
        (⟨.abandoned, nextLabel⟩, []) :=
      (advance_accessed shape selected).trans (if_neg crowded)
    rw [resume_goesOn there abandons]
    exact abandoned_waits.resume_none fun other _ => by simp

theorem resume_jump {target : Label} (jumps : FirstOf Item.jumpTarget? items start place target) :
    resume plan ⟨.awaitingJump slot, nextLabel⟩ items start =
      resume plan ⟨.awaitingLabel slot target, nextLabel⟩ items (place + 1) := by
  rw [awaitingJump_waits.resume_first jumps]
  obtain ⟨item, there, selected⟩ := Option.bind_eq_some_iff.mp jumps.answered
  refine resume_goesOn there ?_
  cases item with
  | label | line | instruction => cases selected
  | branch jump =>
    rw [Item.jumpTarget?] at selected
    simp [advance_branch, selected]

theorem resume_label {target found : Label}
    (marked : FirstOf (Item.placed? target) items start place found) :
    resume plan ⟨.awaitingLabel slot target, nextLabel⟩ items start =
      placedAt plan nextLabel items (place + 1) slot := by
  rw [awaitingLabel_waits.resume_first marked]
  obtain ⟨item, there, selected⟩ := Option.bind_eq_some_iff.mp marked.answered
  refine resume_places there ?_
  cases item with
  | branch | line | instruction => cases selected
  | label seen =>
    have same : seen = target := by
      by_contra different
      simp [Item.placed?, different] at selected
    simp [advance_label, same]

/-- From the start to the local, for a search that goes on to look for a jump. -/
theorem resume_accessed_callBranch (shape : plan.target.shape = .callBranch call)
    (accessed : call.AccessedAt items place slot) :
    resume plan ⟨.awaitingCall, nextLabel⟩ items 0 =
      resume plan ⟨.awaitingJump slot, nextLabel⟩ items (place + 1) := by
  obtain ⟨_, _, called, first⟩ := accessed
  rw [resume_call (by rw [shape]; rfl) called, resume_local_callBranch shape first]

/-- From the start to the local, for a search that ends there. -/
theorem resume_accessed (waits : plan.target.shape.call? = some call)
    (shape : ∀ call, plan.target.shape ≠ .callBranch call)
    (accessed : call.AccessedAt items place slot) :
    resume plan ⟨.awaitingCall, nextLabel⟩ items 0 =
      if HookSite.hasScratchLocals plan.target.shape slot then
        placedAt plan nextLabel items (place + 1) slot
      else (⟨.abandoned, nextLabel⟩, items) := by
  obtain ⟨_, _, called, first⟩ := accessed
  rw [resume_call waits called, resume_local shape first]

theorem resume_branch {jump mark : Nat} {target found : Label}
    (shape : plan.target.shape = .callBranch call) (accessed : call.AccessedAt items place slot)
    (jumps : FirstOf Item.jumpTarget? items (place + 1) jump target)
    (marked : FirstOf (Item.placed? target) items (jump + 1) mark found) :
    resume plan ⟨.awaitingCall, nextLabel⟩ items 0 =
      placedAt plan nextLabel items (mark + 1) slot := by
  rw [resume_accessed_callBranch shape accessed, resume_jump jumps, resume_label marked]

/-! ### A search that ends well has found everything -/

/-- Without a call whose result is accessed, the search does not end well. -/
theorem exists_accessedAt (waits : plan.target.shape.call? = some call)
    (done : (resume plan ⟨.awaitingCall, nextLabel⟩ items 0).1.phase = .done) :
    ∃ place slot, call.AccessedAt items place slot := by
  rcases FirstOf.exists_or_none call.calledBy? items 0 with none | ⟨place, method, called⟩
  · rw [(awaitingCall_waits waits).resume_none none] at done
    cases done
  · rw [resume_call waits called] at done
    rcases FirstOf.exists_or_none Item.accessedSlot? items (place + 1) with
      none | ⟨access, slot, accessed⟩
    · rw [awaitingLocal_waits.resume_none none] at done
      cases done
    · exact ⟨access, slot, place, method, called, accessed⟩

/-- Without a jump and the label that it leads to, the search for them does not end well. -/
theorem exists_branch
    (done : (resume plan ⟨.awaitingJump slot, nextLabel⟩ items start).1.phase = .done) :
    ∃ jump mark target found, FirstOf Item.jumpTarget? items start jump target ∧
      FirstOf (Item.placed? target) items (jump + 1) mark found := by
  rcases FirstOf.exists_or_none Item.jumpTarget? items start with none | ⟨jump, target, jumps⟩
  · rw [awaitingJump_waits.resume_none none] at done
    cases done
  · rw [resume_jump jumps] at done
    rcases FirstOf.exists_or_none (Item.placed? target) items (jump + 1) with
      none | ⟨mark, found, marked⟩
    · rw [awaitingLabel_waits.resume_none none] at done
      cases done
    · exact ⟨jump, mark, target, found, jumps, marked⟩

end TriggerSearch

/-! ### The hook is where the trigger is -/

namespace HookPlan

variable {plan : HookPlan} {body : Body} {position : Nat} {slot : UInt16} {call : CallSite}

private theorem hooked_at_start (placed : TriggerSearch.begin plan body.nextLabel =
      TriggerSearch.placeHook plan ⟨.start, body.nextLabel⟩ slot) :
    plan.hooked? body = some (body.splice 0
      (HookSite.items plan.call plan.target slot body.nextLabel)
      (HookSite.nextLabel plan.target.shape body.nextLabel)) := by
  rw [hooked?, placed, TriggerSearch.placeHook]
  simp [TriggerSearch.finish_done, Body.splice]

private theorem hooked_waiting (waits : plan.target.shape.call? = some call) :
    plan.hooked? body =
      let (search, items) := TriggerSearch.resume plan ⟨.awaitingCall, body.nextLabel⟩ body.items 0
      if search.phase = .done then some { body with items, nextLabel := search.nextLabel }
      else none := by
  have waiting :
      TriggerSearch.begin plan body.nextLabel = (⟨.awaitingCall, body.nextLabel⟩, []) := by
    cases shape : plan.target.shape with
    | entry | entrySelect => rw [shape] at waits; cases waits
    | callBranch | callResult | aggregate | cache => simp [TriggerSearch.begin, shape]
  rw [hooked?, waiting]
  rfl

private theorem hooked_of_placedAt (waits : plan.target.shape.call? = some call)
    (placed : TriggerSearch.resume plan ⟨.awaitingCall, body.nextLabel⟩ body.items 0 =
      TriggerSearch.placedAt plan body.nextLabel body.items position slot) :
    plan.hooked? body = some (body.splice position
      (HookSite.items plan.call plan.target slot body.nextLabel)
      (HookSite.nextLabel plan.target.shape body.nextLabel)) := by
  rw [hooked_waiting waits, placed]
  rfl

/-- Where there is a trigger, there the hook goes. -/
theorem hooked_of_triggersAt
    (triggers : plan.target.shape.TriggersAt body.items position slot) :
    plan.hooked? body = some (body.splice position
      (HookSite.items plan.call plan.target slot body.nextLabel)
      (HookSite.nextLabel plan.target.shape body.nextLabel)) := by
  generalize shape : plan.target.shape = kind at triggers
  rw [← shape]
  cases triggers with
  | entry slot | entrySelect slot _ _ =>
    exact hooked_at_start (by rw [TriggerSearch.begin, shape])
  | callBranch accessed jumps marked =>
    exact hooked_of_placedAt (by rw [shape]; rfl)
      (TriggerSearch.resume_branch shape accessed jumps marked)
  | callResult accessed =>
    refine hooked_of_placedAt (by rw [shape]; rfl) ?_
    rw [TriggerSearch.resume_accessed (by rw [shape]; rfl) (by simp [shape]) accessed,
      if_pos (by rw [shape]; rfl)]
  | aggregate accessed room =>
    refine hooked_of_placedAt (by rw [shape]; rfl) ?_
    rw [TriggerSearch.resume_accessed (by rw [shape]; rfl) (by simp [shape]) accessed,
      if_pos (by simpa [shape, HookSite.hasScratchLocals] using room)]
  | cache accessed =>
    refine hooked_of_placedAt (by rw [shape]; rfl) ?_
    rw [TriggerSearch.resume_accessed (by rw [shape]; rfl) (by simp [shape]) accessed,
      if_pos (by rw [shape]; rfl)]

private theorem done_of_hooked {hooked : Body} (waits : plan.target.shape.call? = some call)
    (found : plan.hooked? body = some hooked) :
    (TriggerSearch.resume plan ⟨.awaitingCall, body.nextLabel⟩ body.items 0).1.phase = .done := by
  rw [hooked_waiting waits] at found
  by_contra other
  simp [other] at found

/-- Without a trigger there is no hook. -/
theorem exists_triggersAt {hooked : Body} (found : plan.hooked? body = some hooked) :
    ∃ position slot, plan.target.shape.TriggersAt body.items position slot := by
  have accessedAt (call : CallSite) (waits : plan.target.shape.call? = some call) :
      ∃ access slot, call.AccessedAt body.items access slot :=
    TriggerSearch.exists_accessedAt waits (done_of_hooked waits found)
  cases shape : plan.target.shape with
  | entry slot => exact ⟨0, slot, .entry slot⟩
  | entrySelect slot ifTrue ifFalse => exact ⟨0, slot, .entrySelect slot ifTrue ifFalse⟩
  | callBranch call =>
    have waits : plan.target.shape.call? = some call := by rw [shape]; rfl
    obtain ⟨access, slot, accessed⟩ := accessedAt call waits
    have done := done_of_hooked waits found
    rw [TriggerSearch.resume_accessed_callBranch shape accessed] at done
    obtain ⟨jump, mark, target, seen, jumps, marked⟩ := TriggerSearch.exists_branch done
    exact ⟨mark + 1, slot, .callBranch accessed jumps marked⟩
  | callResult call =>
    obtain ⟨access, slot, accessed⟩ := accessedAt call (by rw [shape]; rfl)
    exact ⟨access + 1, slot, .callResult accessed⟩
  | aggregate call chunkOwner chunkMethod =>
    have waits : plan.target.shape.call? = some call := by rw [shape]; rfl
    obtain ⟨access, slot, accessed⟩ := accessedAt call waits
    have done := done_of_hooked waits found
    rw [TriggerSearch.resume_accessed waits (by simp [shape]) accessed] at done
    refine ⟨access + 1, slot, .aggregate accessed ?_⟩
    by_contra crowded
    simp [shape, HookSite.hasScratchLocals, crowded] at done
  | cache call field referenceClass =>
    obtain ⟨access, slot, accessed⟩ := accessedAt call (by rw [shape]; rfl)
    exact ⟨access + 1, slot, .cache accessed⟩

/-- A hooked body has the hook where the trigger is. -/
theorem exists_spliced {hooked : Body} (found : plan.hooked? body = some hooked) :
    ∃ position slot, plan.target.shape.TriggersAt body.items position slot ∧
      hooked = body.splice position (HookSite.items plan.call plan.target slot body.nextLabel)
        (HookSite.nextLabel plan.target.shape body.nextLabel) := by
  obtain ⟨position, slot, triggers⟩ := exists_triggersAt found
  exact ⟨position, slot, triggers,
    Option.some.inj (found.symm.trans (hooked_of_triggersAt triggers))⟩

/-- An answer takes the place of an object right behind an access to it. -/
theorem hooked_behind {hooked : Body} (shape : plan.target.shape = .callResult call)
    (found : plan.hooked? body = some hooked) :
    ∃ place slot, plan.HooksBehind body hooked place slot := by
  obtain ⟨position, slot, triggers, spliced⟩ := exists_spliced found
  rw [shape] at triggers
  cases triggers with
  | callResult accessed =>
    obtain ⟨_, _, -, first⟩ := accessed
    exact ⟨_, slot, found, first.accesses, spliced⟩

/-- Either a body has no trigger and gets no hook, or it has exactly one, the hook goes there, and
the rest of the body stays as it is. -/
theorem hooked_exactly_at_trigger (plan : HookPlan) (body : Body) :
    (plan.hooked? body = none ∧
      ∀ position slot, ¬ plan.target.shape.TriggersAt body.items position slot) ∨
    ∃ position slot, position ≤ body.items.length ∧
      (∀ otherPosition otherSlot, plan.target.shape.TriggersAt body.items otherPosition otherSlot ↔
        otherPosition = position ∧ otherSlot = slot) ∧
      plan.hooked? body = some {
        items := body.items.take position
          ++ HookSite.items plan.call plan.target slot body.nextLabel ++ body.items.drop position
        handlers := body.handlers
        localVariables := body.localVariables
        nextLabel := HookSite.nextLabel plan.target.shape body.nextLabel } := by
  cases found : plan.hooked? body with
  | none =>
    refine .inl ⟨rfl, fun position slot triggers => ?_⟩
    rw [hooked_of_triggersAt triggers] at found
    cases found
  | some hooked =>
    obtain ⟨position, slot, triggers⟩ := exists_triggersAt found
    refine .inr ⟨position, slot, triggers.within, fun otherPosition otherSlot => ⟨?_, ?_⟩, ?_⟩
    · exact fun other => other.unique triggers
    · rintro ⟨rfl, rfl⟩
      exact triggers
    · rw [← found, hooked_of_triggersAt triggers, Body.splice]

/-- Stores the current thread in one local after the other. -/
def storingTwice : Body where
  items :=
    let current : Item :=
      .instruction (.invoke .static (.ofClass .thread .currentThread [] (some (.object .thread))))
    [current, .instruction (.increment 0 1), .instruction (.store .reference 1), current,
      .instruction (.store .reference 2), .branch (.ret .void)]
  handlers := []
  localVariables := []
  nextLabel := ⟨0⟩

def storingPlan : HookPlan where
  call := ⟨⟨⟨.thread, .typeField, .object .classObject⟩,
    ⟨.thread, .invoke, .object .reflectMethod⟩⟩, [], some (.reference (.object .thread))⟩
  target := ⟨.getInstance, ⟨[], none⟩,
    .callResult ⟨.thread, .currentThread, ⟨[], some (.object .thread)⟩⟩, []⟩

-- The first local that is stored gets the hook, not the one counted up before it or the next one.
example : storingPlan.hooked? storingTwice = some (storingTwice.splice 3
    (HookSite.items storingPlan.call storingPlan.target 1 ⟨0⟩) ⟨1⟩) := rfl

end HookPlan

end ClassWeave
