import ClassWeave.Proofs.Hook.Detour
import ClassWeave.Proofs.Typing.Assignment
import ClassWeave.Proofs.Typing.Moving
import ClassWeave.Proofs.Typing.Reachability
import ClassWeave.Proofs.Typing.Within

/-!
# Frames of hooked bodies

Where the frames inside a hook lose nothing on the way through, a hooked body can be typed with the
frames of the original: they have moved along with its items, and those inside the hook come in
between.
-/

namespace ClassWeave

open Body

/-- Control leaves the item at a position with a frame, given the frames before items. -/
def Body.Leaves (body : Body) (method : MethodContext) (frames : Nat → Option VFrame)
    (position : Nat) (after : VFrame) : Prop :=
  ∃ before item, frames position = some before ∧ body.items[position]? = some item ∧
    FlowGraph.after method position before item = .ok after

theorem Body.Leaves.unique {body : Body} {method : MethodContext} {frames : Nat → Option VFrame}
    {position : Nat} {first second : VFrame} (leaves : body.Leaves method frames position first)
    (other : body.Leaves method frames position second) : first = second := by
  obtain ⟨before, item, found, itemFound, done⟩ := leaves
  obtain ⟨_, _, otherFound, otherItem, otherDone⟩ := other
  cases Option.some.inj (found.symm.trans otherFound)
  cases Option.some.inj (itemFound.symm.trans otherItem)
  exact Except.ok.inj (done.symm.trans otherDone)

/-- A local that has just been accessed is usable. -/
theorem Body.Leaves.usable {body : Body} {method : MethodContext} {frames : Nat → Option VFrame}
    {position : Nat} {after : VFrame} (leaves : body.Leaves method frames position after)
    {step : SymInstruction} {slot : UInt16}
    (found : body.items[position]? = some (.instruction step))
    (accesses : step.accessedSlot? = some slot) : after.locals.getD slot.toNat .top ≠ .top := by
  obtain ⟨before, item, -, itemFound, done⟩ := leaves
  cases Option.some.inj (found.symm.trans itemFound)
  have ran := VFrame.execute_ok.mp done
  cases step with
  | load kind slot =>
    cases accesses
    obtain ⟨type, loads, found, rfl⟩ := FrameM.load_ok ran
    rw [getD_of_getElem? found]
    exact loads.ne_top
  | store kind slot =>
    cases accesses
    obtain ⟨type, rest, loads, -, rfl⟩ := FrameM.store_ok ran
    rw [storeLocal_getD, if_pos rfl]
    exact loads.ne_top
  | plain | pushByte | pushShort | loadConstant | loadWideConstant | increment | field | invoke
  | invokeDynamic | newPrimitiveArray | onClass | newMultiArray => cases accesses

namespace HookSpot

/-- Where the items of the original go. -/
def move (spot : HookSpot) : Nat → Nat := shift spot.position spot.width

theorem move_injective (spot : HookSpot) : Function.Injective spot.move := by
  intro first second same
  rcases Nat.lt_trichotomy first second with before | equal | after
  · exact absurd same (Nat.ne_of_lt (shift_lt_shift.mpr before))
  · exact equal
  · exact absurd same (Nat.ne_of_gt (shift_lt_shift.mpr after))

/-- The frames of a hooked body, from those of the original and those inside the hook. No path leads
into the hook but from the item before it. -/
def frames (spot : HookSpot) (outer : Nat → Option VFrame) (inner : Nat → VFrame) (place : Nat) :
    Option VFrame :=
  if place < spot.position then (outer place).map (VFrame.moved spot.move)
  else if place < spot.position + spot.width then
    (outer (spot.position - 1)).map fun _ => inner (place - spot.position)
  else (outer (place - spot.width)).map (VFrame.moved spot.move)

/-- Control comes out of the hook behind it, whatever happens. -/
structure IsThrough (spot : HookSpot) : Prop where
  falls : ∀ item ∈ spot.items, FlowGraph.fallsThrough item = true
  jumps : ∀ jump, .branch jump ∈ spot.items → ∀ label ∈ jump.targets, label = spot.skip
  labels : ∀ label, .label label ∈ spot.items → label = spot.skip

/-- What is known of a value inside a hook: its bounds, or only that it is a reference. The hook makes no
new object, so the type of one that it would make is free to stand for any reference. -/
def Stands (spot : HookSpot) (hierarchy : Hierarchy) (upper lower : VType) : Prop :=
  hierarchy.Within upper lower ∨
    upper = .uninitialized spot.position ∧ lower.isReference = true

/-- Frames that come up in a hooked body in the place of the upper one. -/
abbrev Bounds (spot : HookSpot) (hierarchy : Hierarchy) : VFrame → VFrame → Prop :=
  hierarchy.FrameBounds (spot.Stands hierarchy)

/-- Bounds for the frames inside a hook behind an item that leaves the frame `entry`. Each item leads
from the bounds before it to those after it, and what leaves the hook, at its end or by an exception,
is within the bounds of the frames of the original there. -/
structure Threads (spot : HookSpot) (hierarchy : Hierarchy) (method : MethodContext) (body : Body)
    (outer : Nat → Option VFrame) (place : Nat) (entry : VFrame) (inner : Nat → VFrame) : Prop where
  starts : inner 0 = entry.moved spot.move
  flows {index : Nat} {item : Item} {lower after : VFrame} : spot.items[index]? = some item →
    spot.Bounds hierarchy (inner index) lower →
    FlowGraph.after method (spot.position + index) lower item = .ok after →
      (index + 1 < spot.width → spot.Bounds hierarchy (inner (index + 1)) after) ∧
      (∀ jump, item = .branch jump → spot.Bounds hierarchy (inner (spot.width - 1)) after) ∧
      (index + 1 = spot.width → ∃ higher, outer (place + 1) = some higher ∧
        hierarchy.FrameWithin (higher.moved spot.move) after)
  thrown {index : Nat} {item : Item} {lower after : VFrame} {handler : Handler} {target : Nat} :
    spot.items[index]? = some item → item.isCode = true →
    spot.Bounds hierarchy (inner index) lower →
    FlowGraph.after method (spot.position + index) lower item = .ok after →
    body.Protects handler place → body.LabelAt handler.target target →
      ∃ higher, outer target = some higher ∧
        hierarchy.FrameWithin (higher.moved spot.move) ⟨lower.locals, [handler.caught]⟩ ∧
        hierarchy.FrameWithin (higher.moved spot.move) ⟨after.locals, [handler.caught]⟩

variable {spot : HookSpot} {outer : Nat → Option VFrame} {inner : Nat → VFrame}

theorem frames_move (place : Nat) :
    spot.frames outer inner (spot.move place) = (outer place).map (VFrame.moved spot.move) := by
  rw [frames]
  by_cases before : place < spot.position
  · have same : spot.move place = place := if_pos before
    rw [same, if_pos before]
  · have later : spot.move place = place + spot.width := if_neg before
    rw [later, if_neg (by omega), if_neg (by omega), Nat.add_sub_cancel]

theorem frames_inside {index : Nat} (inside : index < spot.width) :
    spot.frames outer inner (spot.position + index) =
      (outer (spot.position - 1)).map fun _ => inner index := by
  rw [frames, if_neg (by omega), if_pos (by omega), Nat.add_sub_cancel_left]

section Bounds

variable {hierarchy : Hierarchy}

theorem moved_ne_mark (type : VType) :
    type.moved spot.move ≠ .uninitialized spot.position := by
  cases type with
  | uninitialized source =>
    simp only [VType.moved, ne_eq, VerificationType.uninitialized.injEq, move, shift]
    split
    · omega
    · have first := spot.width_eq
      omega
  | top | integer | float | double | long | null | uninitializedThis | object =>
    intro same
    cases same

/-- Of what the original holds the bounds are known. -/
theorem bounds_moved_iff {upper lower : VFrame} :
    spot.Bounds hierarchy (upper.moved spot.move) lower ↔
      hierarchy.FrameWithin (upper.moved spot.move) lower := by
  have known (type lower : VType) : spot.Stands hierarchy (type.moved spot.move) lower ↔
      hierarchy.Within (type.moved spot.move) lower :=
    or_iff_left fun mark => moved_ne_mark type mark.1
  have values : List.Forall₂ (spot.Stands hierarchy) (upper.moved spot.move).stack lower.stack ↔
      List.Forall₂ hierarchy.Within (upper.moved spot.move).stack lower.stack := by
    simp only [VFrame.moved, List.forall₂_map_left_iff, known]
  exact ⟨fun bounds => ⟨values.mp bounds.stack, bounds.locals, bounds.spaced⟩,
    fun within => ⟨values.mpr within.stack, within.locals, within.spaced⟩⟩

theorem Bounds.raise {other higher lower : VFrame}
    (bounds : spot.Bounds hierarchy (other.moved spot.move) lower)
    (below : hierarchy.FrameBelow other higher) :
    hierarchy.FrameWithin (higher.moved spot.move) lower :=
  (bounds_moved_iff.mp bounds).raise below.moved

theorem stands_resembles : VType.Resembles (spot.Stands hierarchy) where
  refl _ := .inl .same
  width_eq stands := by
    rcases stands with within | ⟨rfl, reference⟩
    · exact within.alike.width_eq
    · exact (VType.width_of_isReference reference).symm
  isReference_eq stands := by
    rcases stands with within | ⟨rfl, reference⟩
    · exact within.alike.isReference_eq
    · exact reference.symm
  eq_of_primitive stands primitive := by
    rcases stands with within | ⟨rfl, -⟩
    · exact VType.Alike.resembles.eq_of_primitive within.alike primitive
    · cases primitive

theorem stands_merged ⦃upper a b merged : VType⦄
    (found : hierarchy.mergeTypes a b = .ok (some merged)) (first : spot.Stands hierarchy upper a)
    (second : spot.Stands hierarchy upper b) : spot.Stands hierarchy upper merged := by
  rcases first with firstWithin | ⟨rfl, reference⟩
  · rcases second with secondWithin | ⟨rfl, reference⟩
    · exact .inl (.merged firstWithin secondWithin found)
    · exact .inr ⟨rfl, (Hierarchy.mergeTypes_alike found).2.isReference_eq.symm.trans reference⟩
  · exact .inr ⟨rfl, (Hierarchy.mergeTypes_alike found).1.isReference_eq.symm.trans reference⟩

end Bounds

/-- A frame is within the bounds for its position. -/
def Bounded (spot : HookSpot) (hierarchy : Hierarchy) (outer : Nat → Option VFrame)
    (inner : Nat → VFrame) (position : Nat) (frame : VFrame) : Prop :=
  ∃ upper, spot.frames outer inner position = some upper ∧ spot.Bounds hierarchy upper frame

namespace Fits

variable {body hooked : Body} {hierarchy : Hierarchy} {method : MethodContext} {place : Nat}
  {step : SymInstruction}

section Paths

variable (fits : spot.Fits body hooked) (through : spot.IsThrough)

include fits through

/-- Control that gets to the hook gets to all of its items, and out of it. -/
theorem reachable_inside (path : hooked.Reachable spot.position) {index : Nat}
    (inside : index ≤ spot.width) : hooked.Reachable (spot.position + index) := by
  induction index with
  | zero => exact path
  | succ index ih =>
    have found : spot.items[index]? = some spot.items[index] := List.getElem?_eq_getElem inside
    exact (ih (Nat.le_of_succ_le inside)).next (fits.item_inside index found)
      (through.falls _ (List.getElem_mem inside))

/-- Paths of the original have a way through the hook. -/
theorem reachable_move (ahead : 0 < spot.position) {position : Nat}
    (path : body.Reachable position) : hooked.Reachable (spot.move position) := by
  induction path with
  | refl =>
    have first : spot.move 0 = 0 := if_pos ahead
    rw [first]
    exact .refl
  | @tail source target _ edge ih =>
    cases edge with
    | exception covered placed =>
      exact ih.step (.exception ((fits.protects_iff covered.member).mpr covered)
        (fits.labelAt_shift.mpr placed))
    | successor next =>
      cases next with
      | jump found member placed =>
        rw [← fits.item_shift] at found
        exact ih.step (.successor (.jump found member (fits.labelAt_shift.mpr placed)))
      | next found falls =>
        rw [← fits.item_shift] at found
        have onward := ih.next found falls
        rw [move, shift_next] at onward
        split at onward
        · rename_i here
          have behind : spot.move (source + 1) = spot.position + spot.width := by
            rw [move, here, shift, if_neg (Nat.lt_irrefl _)]
          rw [behind]
          exact fits.reachable_inside through onward (Nat.le_refl _)
        · exact onward

end Paths

/-- A handler that is in charge inside the hook is in charge of the item before it. -/
theorem protects_before (fits : spot.Fits body hooked) (behind : spot.position = place + 1)
    (accesses : body.items[place]? = some (.instruction step)) {handler : Handler} {index : Nat}
    (inside : index < spot.width) (covered : hooked.Protects handler (spot.position + index)) :
    body.Protects handler place := by
  obtain ⟨member, -, start, stop, startPlaced, stopPlaced, above, below⟩ := covered
  rw [fits.handlers_eq] at member
  obtain ⟨first, rfl, firstPlaced⟩ :=
    (fits.labelAt_iff (mentions_handler member (by simp))).mp startPlaced
  obtain ⟨last, rfl, lastPlaced⟩ :=
    (fits.labelAt_iff (mentions_handler member (by simp))).mp stopPlaced
  refine ⟨member, ⟨_, accesses, rfl⟩, first, last, firstPlaced, lastPlaced, ?_, ?_⟩
  · rw [shift] at above
    split at above <;> omega
  · rw [shift] at below
    split at below <;> omega

/-- The handlers in charge of the item before the hook are in charge inside it. -/
theorem protects_inside (fits : spot.Fits body hooked) (behind : spot.position = place + 1)
    {handler : Handler} {index : Nat} {item : Item} (found : spot.items[index]? = some item)
    (isCode : item.isCode = true) (covered : body.Protects handler place) :
    hooked.Protects handler (spot.position + index) := by
  obtain ⟨member, -, start, stop, startPlaced, stopPlaced, above, below⟩ := covered
  have inside : index < spot.width := (List.getElem?_eq_some_iff.mp found).1
  refine ⟨fits.handlers_eq ▸ member, ⟨item, fits.item_inside index found, isCode⟩, _, _,
    fits.labelAt_shift.mpr startPlaced, fits.labelAt_shift.mpr stopPlaced, ?_, ?_⟩
  · rw [shift]
    split <;> omega
  · rw [shift]
    split <;> omega

section Frames

variable (fits : spot.Fits body hooked) (typed : body.TypedBy hierarchy method outer)
  (behind : spot.position = place + 1)

theorem bounded_move {target : Nat} {higher frame : VFrame} (found : outer target = some higher)
    (within : hierarchy.FrameWithin (higher.moved spot.move) frame) :
    spot.Bounded hierarchy outer inner (spot.move target) frame :=
  ⟨higher.moved spot.move, by rw [frames_move, found]; rfl, bounds_moved_iff.mpr within⟩

/-- What comes up in the place of a frame that holds in the original is within bounds. -/
theorem bounded_held {target : Nat} {passed frame : VFrame}
    (held : Held hierarchy outer target passed)
    (within : hierarchy.FrameWithin (passed.moved spot.move) frame) :
    spot.Bounded hierarchy outer inner (spot.move target) frame := by
  obtain ⟨higher, found, below⟩ := held
  exact bounded_move found (within.raise below.moved)

include fits typed behind

/-- An item of the original passes on what is within bounds. -/
theorem bounded_outside {origin target : Nat} {item : Item} {before after frame : VFrame}
    (threads : ∀ entry, body.Leaves method outer place entry →
      spot.Threads hierarchy method body outer place entry inner)
    (found : hooked.items[spot.move origin]? = some item)
    (done : FlowGraph.after method (spot.move origin) before item = .ok after)
    (passes : hooked.Passes (spot.move origin) before after target frame)
    (bounded : spot.Bounded hierarchy outer inner (spot.move origin) before) :
    spot.Bounded hierarchy outer inner target frame := by
  obtain ⟨_, upperFound, bounds⟩ := bounded
  rw [frames_move, Option.map_eq_some_iff] at upperFound
  obtain ⟨upper, upperFound, rfl⟩ := upperFound
  have within := bounds_moved_iff.mp bounds
  obtain ⟨same, upperAfter, hands⟩ := typed.flows upperFound
  have itemFound := (fits.item_shift origin).symm.trans found
  cases Option.some.inj (hands.found.symm.trans itemFound)
  have upperDone := FlowGraph.after_moved spot.move_injective hands.done
  have withinAfter := within.after upperDone done
  have thrown {higher lower : VFrame} (handler : Handler)
      (within : hierarchy.FrameWithin (higher.moved spot.move) lower) :
      hierarchy.FrameWithin (VFrame.moved spot.move ⟨higher.locals, [handler.caught]⟩)
        ⟨lower.locals, [handler.caught]⟩ :=
    ⟨.cons .same .nil, within.locals, within.spaced⟩
  cases passes with
  | thrownBefore covered placed =>
    have member := fits.handlers_eq ▸ covered.member
    obtain ⟨landing, rfl, origin⟩ :=
      (fits.labelAt_iff (mentions_handler member (by simp))).mp placed
    exact bounded_held (hands.held (.thrownBefore ((fits.protects_iff member).mp covered) origin))
      (thrown _ within)
  | thrownAfter covered placed =>
    have member := fits.handlers_eq ▸ covered.member
    obtain ⟨landing, rfl, origin⟩ :=
      (fits.labelAt_iff (mentions_handler member (by simp))).mp placed
    exact bounded_held (hands.held (.thrownAfter ((fits.protects_iff member).mp covered) origin))
      (thrown _ withinAfter)
  | successor next =>
    cases next with
    | jump isJump member placed =>
      cases Option.some.inj (found.symm.trans isJump)
      have known : body.Mentions _ := .inr (.inl ⟨_, List.mem_of_getElem? hands.found, member⟩)
      obtain ⟨landing, rfl, origin⟩ := (fits.labelAt_iff known).mp placed
      exact bounded_held (hands.held (.successor (.jump hands.found member origin))) withinAfter
    | next same falls =>
      cases Option.some.inj (found.symm.trans same)
      rw [move, shift_next]
      split
      · rename_i here
        -- Control comes upon the hook, whose bounds start with this frame.
        obtain rfl : origin = place := by omega
        have starts := (threads upperAfter ⟨upper, _, upperFound, hands.found, hands.done⟩).starts
        have first : 0 < spot.width := by rw [spot.width_eq]; exact Nat.succ_pos _
        have entered : spot.frames outer inner (spot.position + 0) = _ := frames_inside first
        rw [Nat.add_zero, behind, Nat.add_sub_cancel, upperFound, ← behind] at entered
        exact ⟨inner 0, entered, starts ▸ bounds_moved_iff.mpr withinAfter⟩
      · exact bounded_held (hands.held (.successor (.next hands.found falls))) withinAfter

/-- An item of the hook passes on what is within bounds. -/
theorem bounded_inside (through : spot.IsThrough)
    (accesses : body.items[place]? = some (.instruction step)) {index target : Nat} {item : Item}
    {before after frame : VFrame} (inside : index < spot.width)
    (threads : ∀ entry, body.Leaves method outer place entry →
      spot.Threads hierarchy method body outer place entry inner)
    (found : hooked.items[spot.position + index]? = some item)
    (done : FlowGraph.after method (spot.position + index) before item = .ok after)
    (passes : hooked.Passes (spot.position + index) before after target frame)
    (bounded : spot.Bounded hierarchy outer inner (spot.position + index) before) :
    spot.Bounded hierarchy outer inner target frame := by
  obtain ⟨upper, upperFound, bounds⟩ := bounded
  rw [frames_inside inside, behind, Nat.add_sub_cancel, Option.map_eq_some_iff] at upperFound
  obtain ⟨crossed, crossedFound, rfl⟩ := upperFound
  obtain ⟨_, entry, hands⟩ := typed.flows crossedFound
  have threading := threads entry ⟨crossed, _, crossedFound, hands.found, hands.done⟩
  have present {other : Nat} (within : other < spot.width) :
      spot.frames outer inner (spot.position + other) = some (inner other) := by
    rw [frames_inside within, behind, Nat.add_sub_cancel, crossedFound, Option.map_some]
  have there : spot.items[index]? = some item := by
    have other := List.getElem?_eq_getElem inside
    rw [other, ← fits.item_inside index other, found]
  obtain ⟨onward, jumps, leaves⟩ := threading.flows there bounds done
  have thrown {handler : Handler} (covered : hooked.Protects handler (spot.position + index))
      (placed : hooked.LabelAt handler.target target) : ∃ origin higher,
        spot.move origin = target ∧ outer origin = some higher ∧
        hierarchy.FrameWithin (higher.moved spot.move) ⟨before.locals, [handler.caught]⟩ ∧
        hierarchy.FrameWithin (higher.moved spot.move) ⟨after.locals, [handler.caught]⟩ := by
    obtain ⟨_, sameItem, isCode⟩ := covered.isCode
    cases Option.some.inj (found.symm.trans sameItem)
    have earlier := fits.protects_before behind accesses inside covered
    obtain ⟨origin, same, originPlaced⟩ :=
      (fits.labelAt_iff (mentions_handler earlier.member (by simp))).mp placed
    obtain ⟨higher, higherFound, within⟩ :=
      threading.thrown there isCode bounds done earlier originPlaced
    exact ⟨origin, higher, same, higherFound, within⟩
  cases passes with
  | thrownBefore covered placed =>
    obtain ⟨origin, higher, rfl, higherFound, within, -⟩ := thrown covered placed
    exact bounded_move higherFound within
  | thrownAfter covered placed =>
    obtain ⟨origin, higher, rfl, higherFound, -, within⟩ := thrown covered placed
    exact bounded_move higherFound within
  | successor next =>
    cases next with
    | jump isJump member placed =>
      cases Option.some.inj (found.symm.trans isJump)
      have isSkip := through.jumps _ (List.mem_of_getElem? there) _ member
      rw [isSkip, fits.labelAt_skip, Nat.add_sub_assoc (by omega)] at placed
      subst placed
      exact ⟨_, present (by omega), jumps _ rfl⟩
    | next same falls =>
      rw [Nat.add_assoc]
      rcases Nat.lt_or_eq_of_le (Nat.succ_le_of_lt inside) with within | ending
      · exact ⟨_, present within, onward within⟩
      · obtain ⟨higher, higherFound, within⟩ := leaves ending
        have past : spot.move (place + 1) = spot.position + (index + 1) := by
          rw [move, shift, if_neg (by omega), behind]
          omega
        exact past ▸ bounded_move higherFound within

/-- Bounds that lead through the hook are kept by all items of the hooked body. -/
theorem sustained (through : spot.IsThrough)
    (accesses : body.items[place]? = some (.instruction step))
    (threads : ∀ entry, body.Leaves method outer place entry →
      spot.Threads hierarchy method body outer place entry inner) (limit : Nat) :
    Sustained hierarchy hooked method limit (spot.Bounded hierarchy outer inner) where
  passed {position target item before after frame} found done _ passes bounded := by
    rcases shift_or_inside spot.position spot.width position with
      ⟨origin, rfl⟩ | ⟨index, inside, rfl⟩
    · exact fits.bounded_outside typed behind threads found done passes bounded
    · exact fits.bounded_inside typed behind through accesses inside threads found done passes
        bounded
  merged found := by
    rintro ⟨upper, upperFound, first⟩ ⟨_, again, second⟩
    cases Option.some.inj (upperFound.symm.trans again)
    exact ⟨upper, upperFound, first.merged stands_merged found second⟩

/-- All frames of the hooked body are within bounds that lead through the hook. -/
theorem inferFrames_bounded (through : spot.IsThrough)
    (accesses : body.items[place]? = some (.instruction step))
    (threads : ∀ entry, body.Leaves method outer place entry →
      spot.Threads hierarchy method body outer place entry inner) {typing : Typing}
    (found : hooked.inferFrames method hierarchy = .ok typing) {position : Nat} {frame : VFrame}
    (frameFound : typing.frameAt position = some frame) :
    spot.Bounded hierarchy outer inner position frame := by
  have sustained := fits.sustained typed behind through accesses threads typing.maxLocals
  refine inferFrames_hold found sustained (Nat.le_refl _) ?_ frameFound
  have first : spot.move 0 = 0 := if_pos (by omega)
  have entered : hierarchy.FrameWithin ((VFrame.initial method).moved spot.move)
      (VFrame.initial method) := by
    rw [VFrame.moved_initial]
    exact .self (VFrame.initial_spaced method)
  exact first ▸ bounded_held typed.entry entered

end Frames

end Fits

end HookSpot

end ClassWeave
