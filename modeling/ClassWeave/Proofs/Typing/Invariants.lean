import ClassWeave.Proofs.Typing.Reachability

/-!
# Invariants of inference

What can be said of the frames at each position holds of all that are inferred if it holds on entry,
and if it is kept when an item passes a frame on and when frames are merged.
-/

namespace ClassWeave

/-- A property of frames by position that is kept on the way from one item to the next, as long as
there are not more than `limit` locals. -/
structure Sustained (hierarchy : Hierarchy) (body : Body) (method : MethodContext) (limit : Nat)
    (holds : Nat → VFrame → Prop) : Prop where
  passed {position target : Nat} {item : Item} {before after frame : VFrame} :
    body.items[position]? = some item → FlowGraph.after method position before item = .ok after →
    after.locals.length ≤ limit → body.Passes position before after target frame →
    holds position before → holds target frame
  merged {position : Nat} {existing incoming merged : VFrame} :
    hierarchy.mergeFrames position existing incoming = .ok merged → holds position existing →
    holds position incoming → holds position merged

namespace FrameSearch

variable {hierarchy : Hierarchy} {below : VFrame → VFrame → Prop} {graph : FlowGraph}
  {body : Body} {method : MethodContext}

/-- What going on does to a search: it gets more room, and frames go up. -/
structure Continues (below : VFrame → VFrame → Prop) (old new : FrameSearch) : Prop where
  size : new.typing.frames.size = old.typing.frames.size
  maxStack : old.typing.maxStack ≤ new.typing.maxStack
  maxLocals : old.typing.maxLocals ≤ new.typing.maxLocals
  held {position : Nat} {frame : VFrame} :
    Holds below old.typing position frame → Holds below new.typing position frame

theorem Continues.refl (search : FrameSearch) : Continues below search search :=
  ⟨rfl, Nat.le_refl _, Nat.le_refl _, id⟩

/-- A step goes nowhere, or follows all edges out of an item whose frame is known. -/
theorem step_follows (ascends : Ascends hierarchy below) (described : graph.Describes body)
    {typing : Typing} {position : Nat} {pending : List Nat} {next : FrameSearch}
    (size : typing.frames.size = body.items.length)
    (done : step hierarchy graph method position ⟨typing, pending⟩ = .ok next) :
    next = ⟨typing, pending⟩ ∨ ∃ before item effect, typing.frameAt position = some before ∧
      body.items[position]? = some item ∧
      graph.effect method position item before = .ok effect ∧
      (∀ edge ∈ effect.edges, edge.1 < typing.frames.size) ∧
      effect.edges.foldlM (fun search (target, incoming) => search.reach hierarchy target incoming)
        (measure ⟨typing, pending⟩ before effect) = .ok next ∧
      Follows below effect.edges (measure ⟨typing, pending⟩ before effect) next := by
  rcases step_cases described size done with ⟨-, same⟩ |
    ⟨before, item, effect, beforeFound, itemFound, effectFound, edgesDone⟩
  · exact .inl same
  · have inside : ∀ edge ∈ effect.edges, edge.1 < typing.frames.size := fun edge member =>
      size ▸ described.edge_inside itemFound effectFound member
    exact .inr ⟨before, item, effect, beforeFound, itemFound, effectFound, inside, edgesDone,
      follow_edges ascends inside edgesDone⟩

theorem step_continues (ascends : Ascends hierarchy below) (described : graph.Describes body)
    {typing : Typing} {position : Nat} {pending : List Nat} {next : FrameSearch}
    (size : typing.frames.size = body.items.length)
    (done : step hierarchy graph method position ⟨typing, pending⟩ = .ok next) :
    Continues below ⟨typing, pending⟩ next := by
  rcases step_follows ascends described size done with rfl |
    ⟨before, item, effect, -, -, -, -, -, followed⟩
  · exact .refl _
  · refine ⟨followed.grows.size, ?_, ?_, fun held => followed.grows.holds ascends held⟩
    · exact followed.grows.maxStack ▸
        (Nat.le_max_left _ _).trans (measure_maxStack ⟨typing, pending⟩ before effect)
    · exact followed.grows.maxLocals ▸ Nat.le_max_left _ _

theorem run_continues (ascends : Ascends hierarchy below) (described : graph.Describes body)
    {fuel : Nat} {search final : FrameSearch}
    (size : search.typing.frames.size = body.items.length)
    (done : run hierarchy graph method fuel search = .ok final) : Continues below search final := by
  induction fuel generalizing search with
  | zero =>
    cases done
    exact .refl _
  | succ fuel ih =>
    obtain ⟨typing, pending⟩ := search
    cases pending with
    | nil =>
      cases done
      exact .refl _
    | cons position pending =>
      obtain ⟨next, stepped, later⟩ := Outcome.bind_ok.mp done
      have continues := step_continues ascends described size stepped
      have rest := ih (continues.size.trans size) later
      exact ⟨rest.size.trans continues.size, continues.maxStack.trans rest.maxStack,
        continues.maxLocals.trans rest.maxLocals, fun held => rest.held (continues.held held)⟩

section Sustained

variable {limit : Nat} {holds : Nat → VFrame → Prop}

/-- The property holds of all frames that have been found. -/
def AllHold (holds : Nat → VFrame → Prop) (search : FrameSearch) : Prop :=
  ∀ position frame, search.typing.frameAt position = some frame → holds position frame

theorem put_allHold {search : FrameSearch} {target : Nat} {frame : VFrame}
    (inside : target < search.typing.frames.size) (hold : AllHold holds search)
    (held : holds target frame) : AllHold holds (search.put target frame) := by
  intro position other found
  rw [frameAt_put inside] at found
  split at found
  · rename_i same
    cases found
    exact same ▸ held
  · exact hold position other found

theorem reach_allHold (sustained : Sustained hierarchy body method limit holds)
    {search next : FrameSearch} {target : Nat} {incoming : VFrame}
    (inside : target < search.typing.frames.size)
    (done : search.reach hierarchy target incoming = .ok next) (hold : AllHold holds search)
    (held : holds target incoming) : AllHold holds next := by
  rcases reach_cases done with ⟨rfl, -⟩ | ⟨-, rfl⟩ |
    ⟨existing, merged, found, mergedFound, -, rfl⟩
  · exact hold
  · exact put_allHold inside hold held
  · exact put_allHold inside hold
      (sustained.merged mergedFound (hold target existing found) held)

theorem follow_allHold (sustained : Sustained hierarchy body method limit holds)
    {edges : List (Nat × VFrame)} {search next : FrameSearch}
    (inside : ∀ edge ∈ edges, edge.1 < search.typing.frames.size)
    (done : edges.foldlM (fun search (target, incoming) => search.reach hierarchy target incoming)
      search = .ok next)
    (hold : AllHold holds search) (held : ∀ edge ∈ edges, holds edge.1 edge.2) :
    AllHold holds next := by
  induction edges generalizing search with
  | nil =>
    cases Outcome.pure_ok.mp done
    exact hold
  | cons edge rest ih =>
    rw [List.foldlM_cons] at done
    obtain ⟨middle, middleFound, later⟩ := Outcome.bind_ok.mp done
    obtain ⟨edgeInside, restInside⟩ := List.forall_mem_cons.mp inside
    obtain ⟨edgeHeld, restHeld⟩ := List.forall_mem_cons.mp held
    have size := (reach_grows (ascends_trivially hierarchy) edgeInside middleFound).1.size
    exact ih (fun other member => size ▸ restInside other member) later
      (reach_allHold sustained edgeInside middleFound hold edgeHeld) restHeld

theorem effect_after {position : Nat} {item : Item} {before : VFrame} {effect : FlowGraph.Effect}
    (done : graph.effect method position item before = .ok effect) :
    FlowGraph.after method position before item = .ok effect.after := by
  obtain ⟨after, afterFound, later⟩ := Outcome.bind_ok.mp done
  obtain ⟨targets, -, same⟩ := Outcome.bind_ok.mp later
  cases Outcome.pure_ok.mp same
  exact Outcome.mapError_ok.mp afterFound

theorem step_allHold (sustained : Sustained hierarchy body method limit holds)
    (described : graph.Describes body) {typing : Typing} {position : Nat} {pending : List Nat}
    {next : FrameSearch} (size : typing.frames.size = body.items.length)
    (done : step hierarchy graph method position ⟨typing, pending⟩ = .ok next)
    (room : next.typing.maxLocals ≤ limit) (hold : AllHold holds ⟨typing, pending⟩) :
    AllHold holds next := by
  rcases step_follows (ascends_trivially hierarchy) described size done with rfl |
    ⟨before, item, effect, beforeFound, itemFound, effectFound, inside, edgesDone, followed⟩
  · exact hold
  · have fits : effect.after.locals.length ≤ limit :=
      (Nat.le_max_right _ _).trans (followed.grows.maxLocals.trans_le room)
    refine follow_allHold sustained inside edgesDone hold fun edge member => ?_
    have passes := (described.mem_edges itemFound effectFound edge.1 edge.2).mp member
    exact sustained.passed itemFound (effect_after effectFound) fits passes
      (hold position before beforeFound)

theorem run_allHold (sustained : Sustained hierarchy body method limit holds)
    (described : graph.Describes body) {fuel : Nat} {search final : FrameSearch}
    (size : search.typing.frames.size = body.items.length)
    (done : run hierarchy graph method fuel search = .ok final)
    (room : final.typing.maxLocals ≤ limit) (hold : AllHold holds search) :
    AllHold holds final := by
  induction fuel generalizing search with
  | zero =>
    cases done
    exact hold
  | succ fuel ih =>
    obtain ⟨typing, pending⟩ := search
    cases pending with
    | nil =>
      cases done
      exact hold
    | cons position pending =>
      obtain ⟨next, stepped, later⟩ := Outcome.bind_ok.mp done
      have ascends := ascends_trivially hierarchy
      have nextSize := (step_continues ascends described size stepped).size.trans size
      have onwards := run_continues ascends described nextSize later
      exact ih nextSize later
        (step_allHold sustained described size stepped (onwards.maxLocals.trans room) hold)

end Sustained

end FrameSearch

/-- What holds on entry and is kept holds of all frames. -/
theorem Body.inferFrames_hold {body : Body} {method : MethodContext} {hierarchy : Hierarchy}
    {typing : Typing} {limit : Nat} {holds : Nat → VFrame → Prop}
    (found : body.inferFrames method hierarchy = .ok typing)
    (sustained : Sustained hierarchy body method limit holds) (room : typing.maxLocals ≤ limit)
    (entry : holds 0 (VFrame.initial method)) {position : Nat} {frame : VFrame}
    (frameFound : typing.frameAt position = some frame) : holds position frame := by
  obtain ⟨graph, search, described, started, ran⟩ := FrameSearch.inferFrames_cases found
  have start := FrameSearch.start_invariant (FrameSearch.ascends_trivially hierarchy) described
    started
  obtain ⟨nonempty, rfl⟩ := FrameSearch.start_cases started
  refine FrameSearch.run_allHold sustained described start.size ran room ?_ position frame frameFound
  refine FrameSearch.put_allHold (by simpa [FrameSearch.blank] using nonempty) ?_ entry
  intro position frame found
  rw [FrameSearch.frameAt_blank] at found
  cases found

end ClassWeave
