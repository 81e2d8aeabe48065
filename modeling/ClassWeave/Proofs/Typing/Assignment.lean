import ClassWeave.Proofs.Typing.Soundness

/-!
# Frames for a body

To follow frames through a body it does not matter how they were found. It is enough that they hold
along all paths, and are only where paths lead, as the frames of a search that has ended do.
-/

namespace ClassWeave

namespace Body

variable {body : Body} {hierarchy : Hierarchy} {method : MethodContext}
  {frames : Nat → Option VFrame}

/-- There is a frame at a position that a given one is below. -/
def Held (hierarchy : Hierarchy) (frames : Nat → Option VFrame) (position : Nat) (frame : VFrame) :
    Prop :=
  ∃ higher, frames position = some higher ∧ hierarchy.FrameBelow frame higher

/-- The item at a position can take the frame before it, and all that it passes on holds. -/
structure HandsOn (body : Body) (hierarchy : Hierarchy) (method : MethodContext)
    (frames : Nat → Option VFrame) (position : Nat) (before : VFrame) (item : Item)
    (after : VFrame) : Prop where
  found : body.items[position]? = some item
  done : FlowGraph.after method position before item = .ok after
  placed {jump : Branch Label} {label : Label} : item = .branch jump → label ∈ jump.targets →
    ∃ target, body.LabelAt label target
  held {target : Nat} {passed : VFrame} : body.Passes position before after target passed →
    Held hierarchy frames target passed

/-- The frames hold on every path through the body, and are only where paths lead. -/
structure TypedBy (body : Body) (hierarchy : Hierarchy) (method : MethodContext)
    (frames : Nat → Option VFrame) : Prop where
  labels {label : Label} {first second : Nat} :
    body.LabelAt label first → body.LabelAt label second → first = second
  handlers : ∀ handler ∈ body.handlers, ∃ start stop target, body.LabelAt handler.start start ∧
    body.LabelAt handler.stop stop ∧ body.LabelAt handler.target target
  entry : Held hierarchy frames 0 (VFrame.initial method)
  flows {position : Nat} {before : VFrame} : frames position = some before →
    ∃ item after, body.HandsOn hierarchy method frames position before item after
  reached {position : Nat} {frame : VFrame} :
    frames position = some frame → body.Reachable position

/-- The frames that inference finds are such frames. -/
theorem inferFrames_typedBy (lawful : hierarchy.Lawful) {typing : Typing}
    (found : body.inferFrames method hierarchy = .ok typing) :
    body.TypedBy hierarchy method typing.frameAt := by
  obtain ⟨graph, described, invariant⟩ :=
    FrameSearch.inferFrames_invariant (FrameSearch.ascends_of_lawful lawful) found
  refine ⟨described.label_unique, fun handler member => ?_, invariant.entry, fun beforeFound => ?_,
    invariant.reached⟩
  · obtain ⟨range, start, stop, target, -⟩ := described.handlers handler member
    exact ⟨range.start, range.stop, range.target, start, stop, target⟩
  · obtain ⟨item, effect, settled⟩ := invariant.settled beforeFound List.not_mem_nil
    have itemFound := settled.found
    rw [described.getElem?] at itemFound
    obtain ⟨after, done, later⟩ := Outcome.bind_ok.mp settled.done
    obtain ⟨targets, targetsFound, same⟩ := Outcome.bind_ok.mp later
    refine ⟨item, effect.after, itemFound, ?_, ?_, fun passes => ?_⟩
    · cases Outcome.pure_ok.mp same
      exact Outcome.mapError_ok.mp done
    · rintro jump label rfl member
      exact described.jump_placed targetsFound member
    · exact settled.held _ ((described.mem_edges itemFound settled.done _ _).mpr passes)

/-- There are frames wherever paths lead. -/
theorem TypedBy.frame_of_reachable (typed : body.TypedBy hierarchy method frames) {position : Nat}
    (path : body.Reachable position) : ∃ frame, frames position = some frame := by
  induction path with
  | refl =>
    obtain ⟨frame, found, -⟩ := typed.entry
    exact ⟨frame, found⟩
  | tail _ edge ih =>
    obtain ⟨before, beforeFound⟩ := ih
    obtain ⟨item, after, hands⟩ := typed.flows beforeFound
    obtain ⟨passed, passes⟩ : ∃ passed, body.Passes _ before after _ passed := by
      cases edge with
      | successor next => exact ⟨_, .successor next⟩
      | exception covered placed => exact ⟨_, .thrownBefore covered placed⟩
    obtain ⟨frame, found, -⟩ := hands.held passes
    exact ⟨frame, found⟩

end Body

end ClassWeave
