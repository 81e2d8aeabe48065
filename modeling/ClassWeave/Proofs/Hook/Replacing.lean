import ClassWeave.Proofs.Hook.Asking
import ClassWeave.Proofs.Hook.Invisibility
import ClassWeave.Proofs.Hook.Threading
import ClassWeave.Proofs.Hook.Triggering

/-!
# Answers in the place of objects

Where the answer takes the place of the object, the rest of the method goes on with it. The types
are checked against what the call is declared to result in, and not against what the method relies on
by then: nothing it relies on is weakened exactly if the answer provides that as well.
-/

namespace ClassWeave

open Body

/-- Wherever control goes from an item that it gets to, the local may hold a value of the type. -/
def Body.Allows (body : Body) (hierarchy : Hierarchy) (frames : Nat → Option VFrame) (place : Nat)
    (slot : UInt16) (type : VType) : Prop :=
  ∀ ⦃target upper⦄, (frames place).isSome = true → body.Edge place target →
    frames target = some upper →
      hierarchy.LocalWithin (upper.locals.getD slot.toNat .top) type

/-- A local may hold what can be used as the value that it has been given. -/
theorem Body.allows_of_reached {body : Body} {hierarchy : Hierarchy} (lawful : hierarchy.Lawful)
    {method : MethodContext} {frames : Nat → Option VFrame}
    (typed : body.TypedBy hierarchy method frames) {place : Nat} {slot : UInt16} {type : VType}
    (suits : ∀ entry, body.Leaves method frames place entry →
      hierarchy.LocalBelow type (entry.locals.getD slot.toNat .top)) :
    body.Allows hierarchy frames place slot type := by
  intro target upper isThere edge upperFound
  obtain ⟨before, found⟩ := Option.isSome_iff_exists.mp isThere
  obtain ⟨item, entry, hands⟩ := typed.flows found
  have bounds {passed : VFrame} (passes : body.Passes place before entry target passed)
      (same : passed.locals = entry.locals) :
      hierarchy.LocalWithin (upper.locals.getD slot.toNat .top) type := by
    obtain ⟨_, sameFound, below⟩ := hands.held passes
    cases Option.some.inj (upperFound.symm.trans sameFound)
    have suitable := suits entry ⟨before, item, found, hands.found, hands.done⟩
    exact (lawful.localBelow_trans suitable (same ▸ below.locals slot.toNat)).imp_right
      (.lower .same)
  cases edge with
  | successor next => exact bounds (.successor next) rfl
  | exception covered placed => exact bounds (.thrownAfter covered placed) rfl

namespace Target

variable {target : Target} {interface : InterfaceMethod} {hierarchy : Hierarchy}

/-- References that pass the check fit. -/
theorem checkFit_ok {check : TypeCheck} {produced expected : RefType}
    (checked : target.checkFit hierarchy check = .ok ())
    (isProduced : check.produced = some (.ref produced))
    (isExpected : check.expected = some (.ref expected)) :
    hierarchy.ReferenceBelow produced expected := by
  rw [checkFit, isProduced, isExpected] at checked
  obtain ⟨fits, answer, later⟩ := Outcome.bind_ok.mp checked
  cases fits with
  | true => exact Outcome.mapError_ok.mp answer
  | false => exact (Outcome.not_throw_ok later).elim

/-- An answer that takes the place of a call's result is of a class that the call may result in. -/
theorem checkTypes_callResult (checked : target.checkTypes interface hierarchy = .ok ())
    {call : CallSite} (shape : target.shape = .callResult call) {answer declared : RefType}
    (answers : interface.descriptor.result = some (.ref answer))
    (declares : call.descriptor.result = some (.ref declared)) :
    hierarchy.ReferenceBelow answer declared := by
  simp only [checkTypes, typeChecks, shape] at checked
  obtain ⟨_, fits, -⟩ := Outcome.bind_ok.mp checked
  exact checkFit_ok fits answers declares

/-- Both the answer and the object that it takes the place of are references. -/
theorem fault?_callResult (accepted : target.fault? interface = none) {call : CallSite}
    (shape : target.shape = .callResult call) :
    target.argumentSlots.length = interface.descriptor.parameters.length ∧
      ∃ answer declared, interface.descriptor.result = some (.ref answer) ∧
        call.descriptor.result = some (.ref declared) := by
  have count : target.argumentSlots.length = interface.descriptor.parameters.length := by
    by_contra other
    simp [fault?, other] at accepted
  have references : isReference interface.descriptor.result = true ∧
      isReference call.descriptor.result = true := by
    simpa [fault?, shape, count] using accepted
  obtain ⟨answer, answers⟩ := HookSite.reference_answer references.1
  obtain ⟨declared, declares⟩ := HookSite.reference_answer references.2
  exact ⟨count, answer, declared, answers, declares⟩

end Target

namespace HookPlan

variable {plan : HookPlan} {body : Body} {position : Nat} {slot : UInt16} {call : CallSite}

/-- What is done with an answer that takes the place of an object comes down to one store. -/
theorem spot_items (shape : plan.target.shape = .callResult call) :
    (plan.spot body position slot).items =
      HookSite.asking plan.call plan.target slot body.nextLabel
        ++ [HookSite.step (.store .reference slot), .label body.nextLabel] := by
  simp [spot, HookSpot.items, HookSite.asking, HookSite.consult, HookSite.useAnswer, shape]

theorem spot_width (shape : plan.target.shape = .callResult call) :
    (plan.spot body position slot).width =
      (HookSite.asking plan.call plan.target slot body.nextLabel).length + 2 := by
  rw [HookSpot.width, spot_items shape, List.length_append]
  rfl

theorem spot_item (shape : plan.target.shape = .callResult call) {index : Nat} {item : Item}
    (found : (plan.spot body position slot).items[index]? = some item) :
    let front := HookSite.asking plan.call plan.target slot body.nextLabel
    index < front.length ∧ front[index]? = some item ∨
      index = front.length ∧ item = HookSite.step (.store .reference slot) ∨
      index = front.length + 1 ∧ item = .label body.nextLabel := by
  intro front
  rw [spot_items shape] at found
  rcases Nat.lt_or_ge index front.length with early | late
  · rw [List.getElem?_append_left early] at found
    exact .inl ⟨early, found⟩
  · obtain ⟨past, rfl⟩ := Nat.exists_eq_add_of_le late
    rw [List.getElem?_append_right late, Nat.add_sub_cancel_left] at found
    rcases past with _ | _ | past
    · exact .inr (.inl ⟨rfl, (Option.some.inj found).symm⟩)
    · exact .inr (.inr ⟨rfl, (Option.some.inj found).symm⟩)
    · cases found

/-- Control comes out of the hook behind it if answers take the place of objects. -/
theorem spot_isThrough (shape : plan.target.shape = .callResult call) :
    (plan.spot body position slot).IsThrough where
  falls item member := by
    rw [spot_items shape] at member
    rcases List.mem_append.mp member with asked | stored
    · exact HookSite.asking_falls asked
    · rcases List.mem_pair.mp stored with rfl | rfl <;> rfl
  jumps jump member label isTarget := by
    rw [spot_items shape] at member
    obtain rfl : jump = .jumpIf (.zero .eq) body.nextLabel := by
      simpa [HookSite.asking, HookSite.test, HookSite.step, HookCall.guard, HookCall.items]
        using member
    exact List.mem_singleton.mp isTarget
  labels label member := by
    rw [spot_items shape] at member
    change label = body.nextLabel
    simpa [HookSite.asking, HookSite.test, HookSite.step, HookCall.guard, HookCall.items]
      using member

section Threads

variable {hierarchy : Hierarchy} {method : MethodContext} {answer : RefType}
  {entry higher lower after : VFrame}

variable (hierarchy method) in
/-- Whatever references there are in the locals, asking puts the answer on the stack. -/
theorem asking_bounds {interface : InterfaceMethod} {fields : HookFields}
    (fieldsTyped : HookCall.FieldsTyped fields)
    (answers : interface.descriptor.result = some (.ref answer)) (spot : HookSpot) {target : Target}
    (count : target.argumentSlots.length = interface.descriptor.parameters.length)
    (slot : UInt16) (skip : Label) (entry : VFrame) :
  let front := HookSite.asking (.of fields interface) target slot skip
    ∃ between : Nat → List VType, between 0 = entry.stack ∧
      between front.length = .object answer :: entry.stack ∧
      ∀ ⦃index position item lower after⦄, front[index]? = some item →
        spot.Bounds hierarchy ⟨entry.locals, between index⟩ lower →
        FlowGraph.after method position lower item = .ok after →
          spot.Bounds hierarchy ⟨entry.locals, between (index + 1)⟩ after ∧
            ∀ jump, item = .branch jump → between (index + 1) = entry.stack := by
  -- the type of an object that nothing makes stands for all references
  let marks : List VType := List.replicate UInt16.size (.uninitialized spot.position)
  have marked (slot : UInt16) : marks.getD slot.toNat .top = .uninitialized spot.position := by
    simp [marks, List.getD_eq_getElem?_getD, slot.toNat_lt]
  have known (slot : UInt16) : (marks.getD slot.toNat .top).isReference = true := by
    rw [marked]
    rfl
  have resembles : VType.Resembles (spot.Stands hierarchy) := HookSpot.stands_resembles
  obtain ⟨between, starts, skips, ends, each⟩ :=
    HookSite.asking_between resembles slot fieldsTyped count answers skip known entry.stack
  refine ⟨between, starts, ends, fun index position item lower after found bounds done => ⟨?_, ?_⟩⟩
  · have refers : VFrame.RefersLike (spot.Stands hierarchy) marks lower.locals :=
      fun slot type _ reference => .inr ⟨marked slot, reference⟩
    have same : after.locals = lower.locals := FlowGraph.after_locals
      (Item.keepsLocals_of_readsOnly (HookSite.asking_readOnly (List.mem_of_getElem? found))) done
    exact ⟨each found refers bounds.stack done, same ▸ bounds.locals, same ▸ bounds.spaced⟩
  · rintro jump rfl
    rw [HookSite.asking_branch found, skips]

/-- The answer is stored within the bounds of all higher frames that let the local hold it. -/
theorem stored_bounds {spot : HookSpot} {rest : List VType} {position : Nat}
    (spaced : Spaced entry.locals) (usable : entry.locals.getD slot.toNat .top ≠ .top)
    (bounds : spot.Bounds hierarchy
      ⟨(entry.moved spot.move).locals, .object answer :: rest⟩ lower)
    (done : FlowGraph.after method position lower (.instruction (.store .reference slot)) =
      .ok after) :
    List.Forall₂ (spot.Stands hierarchy) rest after.stack ∧ Spaced after.locals ∧
      ∀ ⦃higher : VFrame⦄, (∀ index, hierarchy.LocalBelow (entry.locals.getD index .top)
          (higher.locals.getD index .top)) →
        hierarchy.LocalWithin (higher.locals.getD slot.toNat .top) (.object answer) →
          ∀ index, hierarchy.LocalWithin ((higher.moved spot.move).locals.getD index .top)
            (after.locals.getD index .top) := by
  have spacedAfter : Spaced after.locals := (spaced_upheld hierarchy after.locals.length).after
    (FlowGraph.after_localsStep done) (Nat.le_refl _) bounds.spaced
  have ran : FrameM.store .reference slot lower = .ok ((), after) := VFrame.execute_ok.mp done
  obtain ⟨stored, others, -, top, rfl⟩ := FrameM.store_ok ran
  have stack := bounds.stack
  rw [top] at stack
  obtain ⟨first, kept⟩ := List.forall₂_cons.mp stack
  have within : hierarchy.Within (.object answer) stored :=
    first.resolve_right fun mark => nomatch mark.1
  refine ⟨kept, spacedAfter, fun higher below allows index => ?_⟩
  refine Hierarchy.localWithin_stored (spaced.moved spot.move) bounds.spaced ?_ rfl bounds.locals
    (fun index => ?_) ?_ within index
  · rw [Hierarchy.getD_moved]
    exact fun unused => usable (VType.moved_eq_top.mp unused)
  · rw [VFrame.moved, Hierarchy.getD_moved, Hierarchy.getD_moved]
    exact (below index).moved
  · rw [VFrame.moved, Hierarchy.getD_moved]
    exact (Hierarchy.localWithin_moved rfl).mpr allows

/-- A hook asks by the items in `front` and stores the answer. `between` are the stacks around the
items that ask. -/
structure StoresAnswer (spot : HookSpot) (hierarchy : Hierarchy) (method : MethodContext)
    (answer : RefType) (slot : UInt16) (front : List Item) (entry : VFrame)
    (between : Nat → List VType) : Prop where
  width : spot.width = front.length + 2
  items {index : Nat} {item : Item} : spot.items[index]? = some item →
    index < front.length ∧ front[index]? = some item ∨
      index = front.length ∧ item = HookSite.step (.store .reference slot) ∨
      index = front.length + 1 ∧ ∃ mark, item = .label mark
  starts : between 0 = entry.stack
  ends : between front.length = .object answer :: entry.stack
  asks ⦃index position : Nat⦄ ⦃item : Item⦄ ⦃lower after : VFrame⦄ : front[index]? = some item →
    spot.Bounds hierarchy ⟨entry.locals, between index⟩ lower →
    FlowGraph.after method position lower item = .ok after →
      spot.Bounds hierarchy ⟨entry.locals, between (index + 1)⟩ after ∧
        ∀ jump, item = .branch jump → between (index + 1) = entry.stack

/-- The frames of such a hook: the answer is asked for with the locals of the method, and behind the
store everything is as the method goes on with it. -/
def storingFrames (front : List Item) (entry behind : VFrame) (between : Nat → List VType)
    (index : Nat) : VFrame :=
  if index ≤ front.length then ⟨entry.locals, between index⟩ else behind

section Frames

variable {front : List Item} {behind : VFrame} {between : Nat → List VType} {index : Nat}

theorem storingFrames_early (early : index ≤ front.length) :
    storingFrames front entry behind between index = ⟨entry.locals, between index⟩ :=
  if_pos early

theorem storingFrames_late (late : front.length < index) :
    storingFrames front entry behind between index = behind :=
  if_neg (Nat.not_le_of_lt late)

end Frames

namespace StoresAnswer

variable {spot : HookSpot} {front : List Item} {between : Nat → List VType} {index : Nat}
  {item : Item}

section

variable
  (stores : StoresAnswer spot hierarchy method answer slot front (entry.moved spot.move) between)
  (spaced : Spaced entry.locals) (usable : entry.locals.getD slot.toNat .top ≠ .top)
  (there : spot.items[index]? = some item)
  (done : FlowGraph.after method (spot.position + index) lower item = .ok after)

include stores spaced usable there done

/-- Bounds lead from one item of the hook to the next, and out of it to where the method goes on. -/
theorem flows (below : hierarchy.FrameBelow entry higher)
    (allowed : hierarchy.LocalWithin (higher.locals.getD slot.toNat .top) (.object answer))
    (bounds : spot.Bounds hierarchy
      (storingFrames front (entry.moved spot.move) (higher.moved spot.move) between index) lower) :
    let inner := storingFrames front (entry.moved spot.move) (higher.moved spot.move) between
    (index + 1 < spot.width → spot.Bounds hierarchy (inner (index + 1)) after) ∧
      (∀ jump, item = .branch jump → spot.Bounds hierarchy (inner (spot.width - 1)) after) ∧
      (index + 1 = spot.width → hierarchy.FrameWithin (higher.moved spot.move) after) := by
  intro inner
  have width := stores.width
  rcases stores.items there with ⟨early, asked⟩ | ⟨rfl, rfl⟩ | ⟨rfl, mark, rfl⟩
  · rw [storingFrames_early (Nat.le_of_lt early)] at bounds
    obtain ⟨onward, jumps⟩ := stores.asks asked bounds done
    refine ⟨fun _ => ?_, fun jump isBranch => ?_, by omega⟩
    · have asking : inner (index + 1) = ⟨(entry.moved spot.move).locals, between (index + 1)⟩ :=
        storingFrames_early (Nat.succ_le_of_lt early)
      rw [asking]
      exact onward
    · have last : inner (spot.width - 1) = higher.moved spot.move :=
        storingFrames_late (by omega)
      rw [jumps jump isBranch] at onward
      rw [last]
      exact HookSpot.bounds_moved_iff.mpr (onward.raise below)
  · rw [storingFrames_early (Nat.le_refl _), stores.ends] at bounds
    obtain ⟨stack, spacedAfter, locals⟩ := stored_bounds spaced usable bounds done
    have crossed : spot.Bounds hierarchy
        (VFrame.moved spot.move ⟨higher.locals, entry.stack⟩) after :=
      ⟨stack, locals below.locals allowed, spacedAfter⟩
    refine ⟨fun _ => ?_, nofun, by omega⟩
    have last : inner (front.length + 1) = higher.moved spot.move :=
      storingFrames_late (Nat.lt_succ_self _)
    rw [last]
    exact HookSpot.bounds_moved_iff.mpr (crossed.raise (.ofStack below.stack))
  · cases done
    rw [storingFrames_late (Nat.lt_succ_self _)] at bounds
    exact ⟨by omega, nofun, fun _ => HookSpot.bounds_moved_iff.mp bounds⟩

/-- What an item of the hook throws is caught within the bounds of the handler. -/
theorem thrown {behind : VFrame} {handler : Handler} (isCode : item.isCode = true)
    (below : hierarchy.FrameBelow ⟨entry.locals, [handler.caught]⟩ higher)
    (allowed : hierarchy.LocalWithin (higher.locals.getD slot.toNat .top) (.object answer))
    (bounds : spot.Bounds hierarchy
      (storingFrames front (entry.moved spot.move) behind between index) lower) :
    hierarchy.FrameWithin (higher.moved spot.move) ⟨lower.locals, [handler.caught]⟩ ∧
      hierarchy.FrameWithin (higher.moved spot.move) ⟨after.locals, [handler.caught]⟩ := by
  have landing {stack : List VType} {other : VFrame}
      (within : spot.Bounds hierarchy ⟨(entry.moved spot.move).locals, stack⟩ other) :
      hierarchy.FrameWithin (higher.moved spot.move) ⟨other.locals, [handler.caught]⟩ := by
    have caught : spot.Bounds hierarchy
        (VFrame.moved spot.move ⟨entry.locals, [handler.caught]⟩)
        ⟨other.locals, [handler.caught]⟩ :=
      ⟨.cons (.inl .same) .nil, within.locals, within.spaced⟩
    exact caught.raise below
  rcases stores.items there with ⟨early, asked⟩ | ⟨rfl, rfl⟩ | ⟨rfl, mark, rfl⟩
  · rw [storingFrames_early (Nat.le_of_lt early)] at bounds
    exact ⟨landing bounds, landing (stores.asks asked bounds done).1⟩
  · rw [storingFrames_early (Nat.le_refl _), stores.ends] at bounds
    obtain ⟨-, spacedAfter, locals⟩ := stored_bounds spaced usable bounds done
    have caught : spot.Bounds hierarchy
        (VFrame.moved spot.move ⟨higher.locals, [handler.caught]⟩)
        ⟨after.locals, [handler.caught]⟩ :=
      ⟨.cons (.inl .same) .nil, locals below.locals allowed, spacedAfter⟩
    exact ⟨landing bounds, caught.raise (.ofStack below.stack)⟩
  · cases isCode

end

end StoresAnswer

section Answering

variable {interface : InterfaceMethod} {fields : HookFields} {outer : Nat → Option VFrame}
  {place : Nat}

variable (body position slot hierarchy method) in
/-- A hook of this shape is such a hook. -/
theorem exists_storesAnswer (fieldsTyped : HookCall.FieldsTyped fields)
    (answers : interface.descriptor.result = some (.ref answer))
    (shape : plan.target.shape = .callResult call)
    (accepted : plan.target.fault? interface = none)
    (calls : plan.call = HookCall.of fields interface) (entry : VFrame) : ∃ between,
      StoresAnswer (plan.spot body position slot) hierarchy method answer slot
        (HookSite.asking plan.call plan.target slot body.nextLabel) entry between := by
  obtain ⟨between, starts, ends, asks⟩ := asking_bounds hierarchy method fieldsTyped answers
    (plan.spot body position slot) (Target.fault?_callResult accepted shape).1 slot body.nextLabel
    entry
  rw [← calls] at ends asks
  refine ⟨between, spot_width shape, fun found => ?_, starts, ends, asks⟩
  rcases spot_item shape found with early | store | ⟨rfl, rfl⟩
  · exact .inl early
  · exact .inr (.inl store)
  · exact .inr (.inr ⟨rfl, _, rfl⟩)

/-- Where the method lets the local hold the answer, bounds lead through the hook that puts it
there. -/
theorem exists_threads (fieldsTyped : HookCall.FieldsTyped fields)
    (answers : interface.descriptor.result = some (.ref answer))
    (shape : plan.target.shape = .callResult call)
    (accepted : plan.target.fault? interface = none)
    (calls : plan.call = HookCall.of fields interface)
    (typed : body.TypedBy hierarchy method outer) {accessing : SymInstruction}
    (accesses : body.items[place]? = some (.instruction accessing))
    (accessed : accessing.accessedSlot? = some slot)
    (leaves : body.Leaves method outer place entry) (spaced : Spaced entry.locals)
    (allows : body.Allows hierarchy outer place slot (.object answer)) : ∃ inner,
      (plan.spot body (place + 1) slot).Threads hierarchy method body outer place entry inner := by
  have usable := leaves.usable accesses accessed
  obtain ⟨before, item, found, itemFound, done⟩ := leaves
  cases Option.some.inj (accesses.symm.trans itemFound)
  obtain ⟨_, _, hands⟩ := typed.flows found
  cases Option.some.inj (hands.found.symm.trans accesses)
  cases Except.ok.inj (hands.done.symm.trans done)
  have isThere : (outer place).isSome = true := Option.isSome_iff_exists.mpr ⟨before, found⟩
  have next : body.Successor place (place + 1) := .next accesses rfl
  obtain ⟨higher, higherFound, below⟩ := hands.held (.successor next)
  let asked := entry.moved (plan.spot body (place + 1) slot).move
  obtain ⟨between, stores⟩ := exists_storesAnswer body (place + 1) slot hierarchy method fieldsTyped
    answers shape accepted calls asked
  have starts : (⟨asked.locals, between 0⟩ : VFrame) = asked := by
    rw [stores.starts]
  refine ⟨storingFrames (HookSite.asking plan.call plan.target slot body.nextLabel) asked
    (higher.moved (plan.spot body (place + 1) slot).move) between,
    (storingFrames_early (Nat.zero_le _)).trans starts, ?_, ?_⟩
  · intro index item lower after there bounds passed
    have allowed := allows isThere (.successor next) higherFound
    obtain ⟨onward, jumps, leaving⟩ := stores.flows spaced usable there passed below allowed bounds
    exact ⟨onward, jumps, fun last => ⟨higher, higherFound, leaving last⟩⟩
  · intro index item lower after handler target there isCode bounds passed covered placed
    obtain ⟨landing, landingFound, landingBelow⟩ := hands.held (.thrownAfter covered placed)
    have allowed := allows isThere (.exception covered placed) landingFound
    exact ⟨landing, landingFound,
      stores.thrown spaced usable there passed isCode landingBelow allowed bounds⟩

end Answering

end Threads

section Answered

variable {hierarchy : Hierarchy} {method : MethodContext} {interface : InterfaceMethod}
  {fields : HookFields} {answer : RefType} {place : Nat} {hooked : Body}
  {frames : Nat → Option VFrame}

/-- Behind the store the local holds the answer, or more. -/
theorem answer_stored (shape : plan.target.shape = .callResult call)
    (calls : plan.call = HookCall.of fields interface)
    (answers : interface.descriptor.result = some (.ref answer))
    (fits : (plan.spot body position slot).Fits body hooked)
    (typed : hooked.TypedBy hierarchy method frames) (path : hooked.Reachable position) :
    ∃ before after, hooked.HandsOn hierarchy method frames
        (position + (HookSite.asking plan.call plan.target slot body.nextLabel).length) before
        (.instruction (.store .reference slot)) after ∧
      hierarchy.LocalBelow (.object answer) (after.locals.getD slot.toNat .top) := by
  have items : (plan.spot body position slot).items = _ := spot_items shape
  obtain ⟨earlier, unwrap, isFront, tops⟩ :=
    HookSite.asking_last plan.target slot body.nextLabel fields answers
  rw [← calls] at isFront
  have placed : hooked.HasAt position (plan.spot body position slot).items :=
    fun index _ => fits.item_inside index
  rw [items, isFront, Body.hasAt_append, Body.hasAt_append] at placed
  obtain ⟨⟨-, unwraps⟩, stores⟩ := placed
  have unwraps := unwraps 0 _ rfl
  have stores := stores 0 _ rfl
  rw [isFront]
  rw [List.length_append, List.length_singleton, ← Nat.add_assoc, Nat.add_zero] at stores ⊢
  have early : earlier.length ≤ (plan.spot body position slot).width := by
    rw [HookSpot.width, items, isFront]
    simp
  obtain ⟨asked, askedFound⟩ := typed.frame_of_reachable
    (fits.reachable_inside (spot_isThrough shape) path early)
  obtain ⟨_, answered, hands⟩ := typed.flows askedFound
  cases Option.some.inj (hands.found.symm.trans unwraps)
  obtain ⟨rest, top⟩ := tops hands.done
  obtain ⟨storing, storingFound, below⟩ := hands.held (.successor (.next unwraps rfl))
  obtain ⟨_, after, storeHands⟩ := typed.flows storingFound
  cases Option.some.inj (storeHands.found.symm.trans stores)
  refine ⟨storing, after, storeHands, ?_⟩
  have ran : FrameM.store .reference slot storing = .ok ((), after) :=
    VFrame.execute_ok.mp storeHands.done
  obtain ⟨stored, others, -, storedTop, rfl⟩ := FrameM.store_ok ran
  have stack := below.stack
  rw [top, storedTop] at stack
  rw [storeLocal_getD, if_pos rfl]
  exact .inr (List.forall₂_cons.mp stack).1

/-- Wherever control goes from the item before the hook, the local may hold the answer. -/
theorem answer_reaches (lawful : hierarchy.Lawful) (shape : plan.target.shape = .callResult call)
    (calls : plan.call = HookCall.of fields interface)
    (answers : interface.descriptor.result = some (.ref answer))
    (fits : (plan.spot body (place + 1) slot).Fits body hooked)
    (typed : hooked.TypedBy hierarchy method frames) {accessing : SymInstruction}
    (accesses : body.items[place]? = some (.instruction accessing)) (path : body.Reachable place)
    {target : Nat} (edge : body.Edge place target) : ∃ lower,
      frames ((plan.spot body (place + 1) slot).move target) = some lower ∧
        hierarchy.LocalBelow (.object answer) (lower.locals.getD slot.toNat .top) := by
  let spot := plan.spot body (place + 1) slot
  have through : spot.IsThrough := spot_isThrough shape
  have before : Body.shift spot.position spot.width place = place := if_pos (Nat.lt_succ_self _)
  have upTo : hooked.Reachable place := by
    have moved : spot.move place = place := before
    exact moved ▸ fits.reachable_move through (Nat.succ_pos _) path
  have accessed : hooked.items[place]? = some (.instruction accessing) := by
    have kept := fits.item_shift place
    rwa [before, accesses] at kept
  obtain ⟨storing, after, hands, stored⟩ :=
    answer_stored shape calls answers fits typed (upTo.next accessed rfl)
  have items : spot.items = _ := spot_items shape
  have width : spot.width = _ := spot_width shape
  generalize HookSite.asking plan.call plan.target slot body.nextLabel = front at *
  cases edge with
  | exception covered placed =>
    have stores : spot.items[front.length]? = some (.instruction (.store .reference slot)) := by
      rw [items, List.getElem?_append_right (Nat.le_refl _), Nat.sub_self]
      rfl
    have protects := fits.protects_inside rfl stores rfl covered
    obtain ⟨lower, found, below⟩ :=
      hands.held (.thrownAfter protects (fits.labelAt_shift.mpr placed))
    exact ⟨lower, found, lawful.localBelow_trans stored (below.locals slot.toNat)⟩
  | successor next =>
    cases next with
    | jump found => cases accesses.symm.trans found
    | next =>
      have marks : spot.items[front.length + 1]? = some (.label body.nextLabel) := by
        rw [items, List.getElem?_append_right (Nat.le_add_right _ 1), Nat.add_sub_cancel_left]
        rfl
      have marked := fits.item_inside _ marks
      obtain ⟨marking, markingFound, first⟩ := hands.held (.successor (.next hands.found rfl))
      obtain ⟨_, _, markHands⟩ := typed.flows markingFound
      cases Option.some.inj (markHands.found.symm.trans marked)
      cases markHands.done
      obtain ⟨lower, found, second⟩ := markHands.held (.successor (.next marked rfl))
      have behind : spot.move (place + 1) = place + 1 + front.length + 1 + 1 := by
        have past : Body.shift spot.position spot.width (place + 1) = place + 1 + spot.width :=
          if_neg (Nat.lt_irrefl _)
        rw [HookSpot.move, past, width]
        rfl
      have below := (lawful.frameBelow_trans first second).locals slot.toNat
      exact ⟨lower, behind ▸ found, lawful.localBelow_trans stored below⟩

end Answered

section Replaced

variable {hierarchy : Hierarchy} (lawful : hierarchy.Lawful) {method : MethodContext}
  {interface : InterfaceMethod} {fields : HookFields} {answer : RefType} {place : Nat}
  {hooked : Body} {typing after : Typing} {accessing : SymInstruction}
  (fieldsTyped : HookCall.FieldsTyped fields)
  (answers : interface.descriptor.result = some (.ref answer))
  (shape : plan.target.shape = .callResult call)
  (accepted : plan.target.fault? interface = none)
  (calls : plan.call = HookCall.of fields interface)
  (fits : (plan.spot body (place + 1) slot).Fits body hooked)
  (accesses : body.items[place]? = some (.instruction accessing))
  (accessed : accessing.accessedSlot? = some slot)
  (typed : body.inferFrames method hierarchy = .ok typing)
  (patched : hooked.inferFrames method hierarchy = .ok after)

include lawful shape fits typed patched in
/-- There are frames behind the hook wherever there have been. -/
theorem moved_found {position : Nat} {upper : VFrame}
    (found : typing.frameAt position = some upper) :
    ∃ lower, after.frameAt ((plan.spot body (place + 1) slot).move position) = some lower :=
  (inferFrames_typedBy lawful patched).frame_of_reachable (fits.reachable_move
    (spot_isThrough shape) (Nat.succ_pos _) ((inferFrames_typedBy lawful typed).reached found))

include lawful fieldsTyped answers shape accepted calls fits accesses accessed typed patched in
/-- Where the method lets the local hold the answer, all its frames bound those of the hooked body. -/
theorem frameWithin_of_allows
    (allows : body.Allows hierarchy typing.frameAt place slot (.object answer)) {position : Nat}
    {upper lower : VFrame} (found : typing.frameAt position = some upper)
    (lowerFound : after.frameAt ((plan.spot body (place + 1) slot).move position) = some lower) :
    hierarchy.FrameWithin (upper.moved (plan.spot body (place + 1) slot).move) lower := by
  have assigned := inferFrames_typedBy lawful typed
  have threads : ∃ inner, ∀ entry, body.Leaves method typing.frameAt place entry →
      (plan.spot body (place + 1) slot).Threads hierarchy method body typing.frameAt place entry
        inner := by
    by_cases reached : ∃ entry, body.Leaves method typing.frameAt place entry
    · obtain ⟨entry, leaves⟩ := reached
      have spaced : Spaced entry.locals := by
        obtain ⟨before, _, beforeFound, -, done⟩ := leaves
        exact (spaced_upheld hierarchy entry.locals.length).after (FlowGraph.after_localsStep done)
          (Nat.le_refl _) (inferFrames_spaced typed beforeFound)
      obtain ⟨inner, threads⟩ := exists_threads fieldsTyped answers shape accepted calls assigned
        accesses accessed leaves spaced allows
      exact ⟨inner, fun other otherLeaves => leaves.unique otherLeaves ▸ threads⟩
    · exact ⟨fun _ => VFrame.initial method, fun entry leaves => (reached ⟨entry, leaves⟩).elim⟩
  obtain ⟨inner, threads⟩ := threads
  obtain ⟨_, upperFound, bounds⟩ := fits.inferFrames_bounded assigned rfl (spot_isThrough shape)
    accesses threads patched lowerFound
  rw [HookSpot.frames_move, found] at upperFound
  cases upperFound
  exact HookSpot.bounds_moved_iff.mp bounds

include lawful answers shape calls fits accesses typed patched in
/-- The frames of the method only bound those of the hooked body if it lets the local hold the
answer. -/
theorem allows_of_frameWithin (bounded : ∀ position upper, typing.frameAt position = some upper →
      ∃ lower, after.frameAt ((plan.spot body (place + 1) slot).move position) = some lower ∧
        hierarchy.FrameWithin (upper.moved (plan.spot body (place + 1) slot).move) lower) :
    body.Allows hierarchy typing.frameAt place slot (.object answer) := by
  intro target upper isThere edge upperFound
  obtain ⟨before, beforeFound⟩ := Option.isSome_iff_exists.mp isThere
  have path := (inferFrames_typedBy lawful typed).reached beforeFound
  obtain ⟨lower, lowerFound, holds⟩ := answer_reaches lawful shape calls answers fits
    (inferFrames_typedBy lawful patched) accesses path edge
  obtain ⟨_, sameFound, within⟩ := bounded target upper upperFound
  cases Option.some.inj (lowerFound.symm.trans sameFound)
  have allowed := (within.locals slot.toNat).lower holds
  rw [VFrame.moved, Hierarchy.getD_moved] at allowed
  exact (Hierarchy.localWithin_moved rfl).mp allowed

end Replaced

end HookPlan

/-- What becomes of the frames of a method where an answer takes the place of the object that is in a
local behind an item. -/
structure HookPlan.Replaces (plan : HookPlan) (hierarchy : Hierarchy) (method : MethodContext)
    (body : Body) (typing after : Typing) (place : Nat) (slot : UInt16) (answer : RefType) :
    Prop where
  /-- The method lets the local hold what can be used as the object that it has been given. -/
  reached : (∀ entry, body.Leaves method typing.frameAt place entry →
      hierarchy.LocalBelow (.object answer) (entry.locals.getD slot.toNat .top)) →
    body.Allows hierarchy typing.frameAt place slot (.object answer)
  /-- Nothing that the method relies on is weakened exactly if it lets the local hold the answer. -/
  frames : body.Allows hierarchy typing.frameAt place slot (.object answer) ↔
    ∀ position upper, typing.frameAt position = some upper →
      ∃ lower, after.frameAt ((plan.spot body (place + 1) slot).move position) = some lower ∧
        hierarchy.FrameWithin (upper.moved (plan.spot body (place + 1) slot).move) lower
  /-- Behind the hook the local can be used as before only if the answer can. -/
  needed {upper lower : VFrame} : body.Reachable place → typing.frameAt (place + 1) = some upper →
    after.frameAt ((plan.spot body (place + 1) slot).move (place + 1)) = some lower →
      let before := (upper.moved (plan.spot body (place + 1) slot).move).locals.getD slot.toNat .top
      hierarchy.LocalBelow (lower.locals.getD slot.toNat .top) before →
        hierarchy.LocalBelow (.object answer) before
  /-- It can be, as long as values of the type that it had stay such values where they meet. -/
  enough {upper : VFrame} : body.Allows hierarchy typing.frameAt place slot (.object answer) →
    typing.frameAt (place + 1) = some upper →
      let before := (upper.moved (plan.spot body (place + 1) slot).move).locals.getD slot.toNat .top
      hierarchy.Retains before → ∃ lower,
        after.frameAt ((plan.spot body (place + 1) slot).move (place + 1)) = some lower ∧
          hierarchy.LocalBelow (lower.locals.getD slot.toNat .top) before

/-- Finds an object, and returns it as a text. -/
def finding : CallSite := ⟨.thread, .getInstance, ⟨[], some (.object .object)⟩⟩

def findingTarget : Target :=
  ⟨gatheringTarget.name, ⟨[], some (.object .string)⟩, .callResult finding, []⟩

def findingSpec : HookSpec := ⟨answering, [findingTarget]⟩

def findingMethod : MethodContext := ⟨.thread, findingTarget.name, findingTarget.descriptor, true⟩

def findingPlan : HookPlan := ⟨HookCall.of gatheringFields answering, findingTarget⟩

/-- What is found is passed on. -/
def relaying (call : CallSite) : Body where
  items := [.instruction (.invoke .static ⟨.object call.owner, call.name, call.descriptor, false⟩),
    .instruction (.store .reference 0), .instruction (.load .reference 0),
    .branch (.ret .reference)]
  handlers := []
  localVariables := []
  nextLabel := ⟨0⟩

theorem relaying_labelsBelow (call : CallSite) : (relaying call).LabelsBelow := by
  intro label mentions
  simp [relaying, Body.Mentions, Branch.targets] at mentions

def relayed (plan : HookPlan) (call : CallSite) : Body :=
  (relaying call).splice 2 (HookSite.items plan.call plan.target 0 ⟨0⟩) ⟨1⟩

def relayingTyping (found : RefType) : Typing where
  frames := #[some ⟨[], []⟩, some ⟨[], [.object found]⟩, some ⟨[.object found], []⟩,
    some ⟨[.object found], [.object found]⟩]
  maxStack := 1
  maxLocals := 1

/-- Answers with numbers. -/
def counting : InterfaceMethod :=
  ⟨gathering.owner, gathering.name, ⟨[], some (.ref (.array 0 (.base .int)))⟩⟩

/-- Finds something that can be cloned. -/
def cloning : CallSite := ⟨.thread, .getInstance, ⟨[], some (.object .cloneable)⟩⟩

def cloningPlan : HookPlan :=
  ⟨HookCall.of gatheringFields counting,
    ⟨gatheringTarget.name, ⟨[], some (.object .string)⟩, .callResult cloning, []⟩⟩

/-- The local may hold the answer, and yet what is in it behind the hook is any object: an array can be
cloned, but where it meets something else that can be, this is lost. -/
theorem cloning_weakened :
    HookSpec.ofParts counting [cloningPlan.target] = .ok ⟨counting, [cloningPlan.target]⟩ ∧
    cloningPlan.target.checkTypes counting .flat = .ok () ∧
    HookFields.of .thread counting = .ok gatheringFields ∧
    cloningPlan.hooked? (relaying cloning) = some (relayed cloningPlan cloning) ∧
    (relaying cloning).inferFrames findingMethod .flat = .ok (relayingTyping (.object .cloneable)) ∧
    (relaying cloning).Allows .flat (relayingTyping (.object .cloneable)).frameAt 1 0
      (.object (.array 0 (.base .int))) ∧
    ∃ after, (relayed cloningPlan cloning).inferFrames findingMethod .flat = .ok after ∧
      after.frameAt 17 = some ⟨[VType.ofClass .object], []⟩ ∧
      ¬ Hierarchy.flat.TypeBelow (VType.ofClass .object) (VType.ofClass .cloneable) := by
  have found : (Typing.frameAt · 17) <$>
      (relayed cloningPlan cloning).inferFrames findingMethod .flat =
        .ok (some ⟨[VType.ofClass .object], []⟩) := by
    cbv
  obtain ⟨after, patched, weaker⟩ := Outcome.map_ok.mp found
  have typed : (relaying cloning).inferFrames findingMethod .flat =
      .ok (relayingTyping (.object .cloneable)) := by
    cbv
  have allows : (relaying cloning).Allows .flat (relayingTyping (.object .cloneable)).frameAt 1 0
      (.object (.array 0 (.base .int))) := by
    refine Body.allows_of_reached Hierarchy.flat_lawful
      (Body.inferFrames_typedBy Hierarchy.flat_lawful typed) fun entry leaves => ?_
    have stored : (relaying cloning).Leaves findingMethod
        (relayingTyping (.object .cloneable)).frameAt 1 ⟨[.object (.object .cloneable)], []⟩ :=
      ⟨_, _, rfl, rfl, rfl⟩
    obtain rfl := leaves.unique stored
    exact .inr (.object (Hierarchy.referenceBelow_array_object.mpr (.inr (.inl rfl))))
  refine ⟨by decide +kernel, by cbv, by decide +kernel, rfl, typed, allows, after, patched, weaker,
    fun below => ?_⟩
  have same : BinaryName.cloneable = .object :=
    Hierarchy.flat_lawful.above_root (Hierarchy.referenceBelow_object.mp below.reference)
  exact absurd same (by decide)

/-- The object is known to be a text once it is in the local. -/
def narrowing : Body where
  items := [.instruction (.invoke .static (.ofClass finding.owner finding.name [] (some (.object .object)))),
    .instruction (.onClass .checkCast (.object .string)), .instruction (.store .reference 0),
    .instruction (.load .reference 0), .branch (.ret .reference)]
  handlers := []
  localVariables := []
  nextLabel := ⟨0⟩

def narrowingHooked : Body :=
  narrowing.splice 3 (HookSite.items findingPlan.call findingPlan.target 0 ⟨0⟩) ⟨1⟩

def narrowingTyping : Typing where
  frames :=
    let text := VType.ofClass .string
    #[some ⟨[], []⟩, some ⟨[], [VType.ofClass .object]⟩, some ⟨[], [text]⟩, some ⟨[text], []⟩,
      some ⟨[text], [text]⟩]
  maxStack := 1
  maxLocals := 1

theorem narrowing_typed : narrowing.inferFrames findingMethod .flat = .ok narrowingTyping := by
  cbv

theorem narrowing_hooked : findingPlan.hooked? narrowing = some narrowingHooked := by
  rfl

theorem narrowingHooked_frameAt : ∃ typing,
    narrowingHooked.inferFrames findingMethod .flat = .ok typing ∧
      typing.frameAt 17 = some ⟨[VType.ofClass .object], []⟩ := by
  have found : (Typing.frameAt · 17) <$> narrowingHooked.inferFrames findingMethod .flat =
      .ok (some ⟨[VType.ofClass .object], []⟩) := by
    cbv
  exact Outcome.map_ok.mp found

end ClassWeave
