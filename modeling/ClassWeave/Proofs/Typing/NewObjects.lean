import ClassWeave.Proofs.Typing.Locals

/-!
# Types of new objects

A new object is known by the item that created it. When control comes back to that item, no value in
the frame is known by it any more, so the type never stands for the objects of two rounds.
-/

namespace ClassWeave

namespace VType

theorem Alike.uninitialized {source : Nat} {type : VType}
    (alike : Alike type (.uninitialized source)) : type = .uninitialized source :=
  alike.resolve_right fun both => nomatch both.2

end VType

namespace VFrame

/-- No value in the frame is known to be a new object of the item at a position. -/
structure Lacks (frame : VFrame) (source : Nat) : Prop where
  stack : .uninitialized source ∉ frame.stack
  locals : .uninitialized source ∉ frame.locals

variable {before after : VFrame} {source : Nat}

/-- Parameters are no new objects. -/
theorem fixed_of_mem_initial {method : MethodContext} {type : VType}
    (member : type ∈ (initial method).locals) : FrameM.Fixed type := by
  intro move
  have same := congrArg Frame.locals (@moved_initial move method)
  exact List.map_inj_left.mp (same.trans (List.map_id _).symm) type member

theorem initial_lacks (method : MethodContext) (source : Nat) : (initial method).Lacks source where
  stack := List.not_mem_nil
  locals member := (fixed_of_mem_initial member).ne_uninitialized source rfl

/-- Merging leaves the types of new objects as they are, or drops them. -/
theorem Lacks.alike (lacks : before.Lacks source) (alike : before.Alike after) :
    after.Lacks source where
  stack := by
    have pairs := alike.stack
    have lacking := lacks.stack
    generalize before.stack = first at pairs lacking
    generalize after.stack = second at pairs
    induction pairs with
    | nil => exact List.not_mem_nil
    | cons head _ ih =>
      rw [List.mem_cons, not_or] at lacking ⊢
      refine ⟨fun same => lacking.1 (same ▸ head).uninitialized.symm, ih lacking.2⟩
  locals member := by
    obtain ⟨slot, found⟩ := List.getElem?_of_mem member
    have holds : after.locals.getD slot .top = .uninitialized source := getD_of_getElem? found
    rcases alike.locals slot with unused | each
    · cases unused.symm.trans holds
    · rw [holds] at each
      exact lacks.locals (List.mem_of_getElem? (getElem?_of_getD nofun each.uninitialized))

end VFrame

/-- What a constructor call makes of an object is no new object. -/
theorem Initializes.not_mem {thisClass : BinaryName} {constructor : MethodRef} {old new : VType}
    (initializes : Initializes thisClass constructor old new) {source : Nat} {types : List VType}
    (lacking : .uninitialized source ∉ types) :
    .uninitialized source ∉ types.map (FrameM.replaced old new) := by
  intro member
  obtain ⟨type, there, same⟩ := List.mem_map.mp member
  unfold FrameM.replaced at same
  split at same
  · cases initializes <;> cases same
  · exact lacking (same ▸ there)

/-- Only the item that creates objects brings their type into a frame. -/
theorem FrameStep.lacks {thisClass : BinaryName} {position source : Nat} {before after : VFrame}
    {item : Item} (step : FrameStep thisClass position before item after)
    (elsewhere : source ≠ position) (lacks : before.Lacks source) : after.Lacks source := by
  cases step with
  | mark | increment => exact lacks
  | exchange known ordinary widths fixed =>
    refine ⟨fun member => ?_, lacks.locals⟩
    rcases List.mem_append.mp member with result | kept
    · exact (fixed _ result).ne_uninitialized source rfl
    · exact lacks.stack (List.mem_of_mem_drop kept)
  | rearrange rearranges => exact ⟨fun member => lacks.stack (rearranges.mem member), lacks.locals⟩
  | load loads found =>
    refine ⟨fun member => ?_, lacks.locals⟩
    rcases List.mem_cons.mp member with rfl | kept
    · exact lacks.locals (List.mem_of_getElem? found)
    · exact lacks.stack kept
  | store loads top =>
    rename_i type rest
    have stack := lacks.stack
    rw [top, List.mem_cons, not_or] at stack
    refine ⟨stack.2, fun member => ?_⟩
    rcases mem_storeLocal member nofun with rfl | kept
    · exact stack.1 rfl
    · exact lacks.locals kept
  | create =>
    refine ⟨fun member => ?_, lacks.locals⟩
    rcases List.mem_cons.mp member with same | kept
    · cases same
      exact elsewhere rfl
    · exact lacks.stack kept
  | construct isConstructor noResult initializes receiver =>
    exact ⟨initializes.not_mem fun member => lacks.stack (List.mem_of_mem_drop member),
      initializes.not_mem lacks.locals⟩
  | branch => exact ⟨fun member => lacks.stack (List.mem_of_mem_drop member), lacks.locals⟩
  | throw top =>
    refine ⟨fun member => ?_, lacks.locals⟩
    rw [← List.mem_singleton.mp member] at top
    exact lacks.stack (top ▸ List.mem_cons_self)

namespace Body

variable {body : Body} {position barrier : Nat}

theorem Passes.lacks {source target : Nat} {before after passed : VFrame}
    (passes : body.Passes position before after target passed) (lacksBefore : before.Lacks source)
    (lacksAfter : after.Lacks source) : passed.Lacks source := by
  have caught {handler : Handler} : .uninitialized source ∉ [handler.caught] := nofun
  cases passes with
  | successor => exact lacksAfter
  | thrownBefore => exact ⟨caught, lacksBefore.locals⟩
  | thrownAfter => exact ⟨caught, lacksAfter.locals⟩

/-- Control can get to a position without having been at the barrier before. -/
def ReachableBefore (body : Body) (barrier position : Nat) : Prop :=
  Relation.ReflTransGen (fun source target => source ≠ barrier ∧ body.Edge source target) 0 position

theorem Reachable.before (path : body.Reachable position) (barrier : Nat) :
    body.ReachableBefore barrier position ∨ body.ReachableBefore barrier barrier := by
  induction path with
  | refl => exact .inl .refl
  | @tail source target _ edge ih =>
    rcases ih with path | arrived
    · by_cases here : source = barrier
      · exact .inr (here ▸ path)
      · exact .inl (path.tail ⟨here, edge⟩)
    · exact .inr arrived

/-- What is reached at all is reached for the first time. -/
theorem Reachable.arrival (path : body.Reachable position) : body.ReachableBefore position position :=
  (path.before position).elim id id

variable {method : MethodContext} {hierarchy : Hierarchy} {typing : Typing}

/-- On the way to the first arrival at an item, no frame has a new object of it. -/
theorem inferFrames_before (typed : body.inferFrames method hierarchy = .ok typing)
    (path : body.ReachableBefore barrier position) :
    ∃ frame, typing.frameAt position = some frame ∧ frame.Lacks barrier := by
  induction path with
  | refl =>
    obtain ⟨first, there, alike⟩ := inferFrames_initial typed
    exact ⟨first, there, (VFrame.initial_lacks method barrier).alike alike⟩
  | @tail source target _ leads ih =>
    obtain ⟨elsewhere, edge⟩ := leads
    obtain ⟨before, there, lacks⟩ := ih
    obtain ⟨item, after, -, done, onward⟩ := inferFrames_passes typed there
    obtain ⟨passed, passes⟩ := edge.passes before after
    obtain ⟨next, nextThere, alike⟩ := onward passes
    have step := FlowGraph.after_frameStep done
    exact ⟨next, nextThere, (passes.lacks lacks (step.lacks elsewhere.symm lacks)).alike alike⟩

/-- When control comes to an item, no value is known to be a new object of it. There is one frame for
all arrivals, and the first arrival brings none. -/
theorem inferFrames_lacks (typed : body.inferFrames method hierarchy = .ok typing) {frame : VFrame}
    (there : typing.frameAt position = some frame) : frame.Lacks position := by
  have path := ((inferFrames_closed typed).2 position).mp (by rw [Typing.isReachable, there]; rfl)
  obtain ⟨other, same, lacks⟩ := inferFrames_before typed path.arrival
  cases Option.some.inj (there.symm.trans same)
  exact lacks

end Body

end ClassWeave
