import ClassWeave.Proofs.Typing.Flow
import ClassWeave.Proofs.Typing.Merging

/-!
# Typing is a fixpoint

The search for frames keeps one invariant: an item that is not pending has passed its frames on. A
search that ends has nothing pending, so its frames hold on every path, and they are where paths
lead.
-/

namespace ClassWeave

namespace FrameSearch

/-- An order of frames in which merging goes up. -/
structure Ascends (hierarchy : Hierarchy) (below : VFrame → VFrame → Prop) : Prop where
  refl (frame : VFrame) : below frame frame
  trans {a b c : VFrame} : below a b → below b c → below a c
  merge {item : Nat} {existing incoming merged : VFrame} :
    hierarchy.mergeFrames item existing incoming = .ok merged →
      below existing merged ∧ below incoming merged

theorem ascends_of_lawful {hierarchy : Hierarchy} (lawful : hierarchy.Lawful) :
    Ascends hierarchy hierarchy.FrameBelow :=
  ⟨.refl, lawful.frameBelow_trans, lawful.mergeFrames_above⟩

/-- Whatever the hierarchy is like, a frame stays where there is one. -/
theorem ascends_trivially (hierarchy : Hierarchy) : Ascends hierarchy fun _ _ => True :=
  ⟨fun _ => trivial, fun _ _ => trivial, fun _ => ⟨trivial, trivial⟩⟩

section Growth

variable {hierarchy : Hierarchy} {below : VFrame → VFrame → Prop}

/-- What reaching more positions does to a search: frames go up, and those that are not pending
have not changed. -/
structure Grows (below : VFrame → VFrame → Prop) (old new : FrameSearch) : Prop where
  size : new.typing.frames.size = old.typing.frames.size
  maxStack : old.typing.maxStack = new.typing.maxStack
  maxLocals : old.typing.maxLocals = new.typing.maxLocals
  pending {position : Nat} : position ∈ old.pending → position ∈ new.pending
  unchanged {position : Nat} :
    position ∉ new.pending → new.typing.frameAt position = old.typing.frameAt position
  above {position : Nat} {frame : VFrame} : old.typing.frameAt position = some frame →
    ∃ higher, new.typing.frameAt position = some higher ∧ below frame higher

theorem Grows.refl (ascends : Ascends hierarchy below) (search : FrameSearch) :
    Grows below search search where
  size := rfl
  maxStack := rfl
  maxLocals := rfl
  pending := id
  unchanged _ := rfl
  above found := ⟨_, found, ascends.refl _⟩

theorem Grows.trans (ascends : Ascends hierarchy below) {first second third : FrameSearch}
    (early : Grows below first second) (late : Grows below second third) :
    Grows below first third where
  size := late.size.trans early.size
  maxStack := early.maxStack.trans late.maxStack
  maxLocals := early.maxLocals.trans late.maxLocals
  pending member := late.pending (early.pending member)
  unchanged absent := (late.unchanged absent).trans
    (early.unchanged fun member => absent (late.pending member))
  above found := by
    obtain ⟨middle, middleFound, lower⟩ := early.above found
    obtain ⟨top, topFound, upper⟩ := late.above middleFound
    exact ⟨top, topFound, ascends.trans lower upper⟩

/-- A position has a frame that a given one is below. -/
def Holds (below : VFrame → VFrame → Prop) (typing : Typing) (position : Nat) (frame : VFrame) :
    Prop :=
  ∃ higher, typing.frameAt position = some higher ∧ below frame higher

theorem Grows.holds (ascends : Ascends hierarchy below) {old new : FrameSearch}
    (grows : Grows below old new) {position : Nat} {frame : VFrame}
    (held : Holds below old.typing position frame) : Holds below new.typing position frame := by
  obtain ⟨middle, middleFound, lower⟩ := held
  obtain ⟨top, topFound, upper⟩ := grows.above middleFound
  exact ⟨top, topFound, ascends.trans lower upper⟩

/-- No frame has more locals than there is room for. -/
def Roomy (search : FrameSearch) : Prop :=
  ∀ position frame, search.typing.frameAt position = some frame →
    frame.locals.length ≤ search.typing.maxLocals

/-- The search with a new frame at a position, which is now pending. -/
def put (search : FrameSearch) (target : Nat) (frame : VFrame) : FrameSearch :=
  ⟨⟨search.typing.frames.setIfInBounds target (some frame), search.typing.maxStack,
    search.typing.maxLocals⟩, target :: search.pending⟩

theorem frameAt_put {search : FrameSearch} {target : Nat} {frame : VFrame}
    (inside : target < search.typing.frames.size) (position : Nat) :
    (search.put target frame).typing.frameAt position =
      if target = position then some frame else search.typing.frameAt position := by
  simp only [put, Typing.frameAt, Array.getElem?_setIfInBounds]
  by_cases same : target = position
  · subst same
    rw [if_pos rfl, if_pos inside, if_pos rfl]
    rfl
  · rw [if_neg same, if_neg same]

/-- Reaching a position changes nothing, or puts a frame there that takes the one before into
account. -/
theorem reach_cases {search next : FrameSearch} {target : Nat} {incoming : VFrame}
    (done : search.reach hierarchy target incoming = .ok next) :
    (next = search ∧ ∃ existing, search.typing.frameAt target = some existing ∧
      hierarchy.mergeFrames target existing incoming = .ok existing) ∨
    (search.typing.frameAt target = none ∧ next = search.put target incoming) ∨
    ∃ existing merged, search.typing.frameAt target = some existing ∧
      hierarchy.mergeFrames target existing incoming = .ok merged ∧ merged ≠ existing ∧
      next = search.put target merged := by
  unfold reach at done
  simp only at done
  split at done
  · rename_i missing
    exact .inr (.inl ⟨missing, (Outcome.pure_ok.mp done).symm⟩)
  · rename_i existing found
    obtain ⟨merged, mergedFound, later⟩ := Outcome.bind_ok.mp done
    split at later
    · rename_i same
      subst same
      exact .inl ⟨(Outcome.pure_ok.mp later).symm, merged, found, mergedFound⟩
    · rename_i changed
      exact .inr (.inr ⟨existing, merged, found, mergedFound, changed,
        (Outcome.pure_ok.mp later).symm⟩)

theorem put_grows {search : FrameSearch} {target : Nat} {frame : VFrame}
    (inside : target < search.typing.frames.size) (ascends : Ascends hierarchy below)
    (above : ∀ existing, search.typing.frameAt target = some existing → below existing frame) :
    Grows below search (search.put target frame) where
  size := Array.size_setIfInBounds
  maxStack := rfl
  maxLocals := rfl
  pending := List.mem_cons_of_mem target
  unchanged {position} absent := by
    have other : target ≠ position := by
      rintro rfl
      exact absent List.mem_cons_self
    rw [frameAt_put inside, if_neg other]
  above {position existing} found := by
    rw [frameAt_put inside]
    split
    · rename_i same
      exact ⟨frame, rfl, above existing (same ▸ found)⟩
    · exact ⟨existing, found, ascends.refl existing⟩

/-- Reaching a position leaves it with a frame above the one it is reached with. -/
theorem reach_grows (ascends : Ascends hierarchy below) {search next : FrameSearch} {target : Nat}
    {incoming : VFrame} (inside : target < search.typing.frames.size)
    (done : search.reach hierarchy target incoming = .ok next) :
    Grows below search next ∧ Holds below next.typing target incoming := by
  have placed (frame : VFrame) : (search.put target frame).typing.frameAt target = some frame := by
    rw [frameAt_put inside, if_pos rfl]
  rcases reach_cases done with ⟨rfl, existing, found, merged⟩ | ⟨missing, rfl⟩ |
    ⟨existing, merged, found, mergedFound, -, rfl⟩
  · exact ⟨.refl ascends next, existing, found, (ascends.merge merged).2⟩
  · refine ⟨put_grows inside ascends fun existing found => ?_, incoming, placed incoming,
      ascends.refl incoming⟩
    rw [missing] at found
    cases found
  · obtain ⟨fromExisting, fromIncoming⟩ := ascends.merge mergedFound
    refine ⟨put_grows inside ascends fun other otherFound => ?_, merged, placed merged,
      fromIncoming⟩
    rw [found] at otherFound
    cases otherFound
    exact fromExisting

/-- Only the position that is reached can get its first frame. -/
theorem reach_frameAt {search next : FrameSearch} {target : Nat} {incoming : VFrame}
    (inside : target < search.typing.frames.size)
    (done : search.reach hierarchy target incoming = .ok next) {position : Nat} {frame : VFrame}
    (found : next.typing.frameAt position = some frame) :
    search.typing.frameAt position = some frame ∨ position = target := by
  have other {merged : VFrame}
      (found : (search.put target merged).typing.frameAt position = some frame) :
      search.typing.frameAt position = some frame ∨ position = target := by
    rw [frameAt_put inside] at found
    split at found
    · rename_i same
      exact .inr same.symm
    · exact .inl found
  rcases reach_cases done with ⟨rfl, -⟩ | ⟨-, rfl⟩ | ⟨_, merged, -, -, -, rfl⟩
  · exact .inl found
  · exact other found
  · exact other found

theorem put_roomy {search : FrameSearch} {target : Nat} {frame : VFrame}
    (inside : target < search.typing.frames.size) (roomy : search.Roomy)
    (fits : frame.locals.length ≤ search.typing.maxLocals) : (search.put target frame).Roomy := by
  intro position other found
  rw [frameAt_put inside] at found
  split at found
  · cases found
    exact fits
  · exact roomy position other found

theorem reach_roomy {search next : FrameSearch} {target : Nat} {incoming : VFrame}
    (inside : target < search.typing.frames.size)
    (done : search.reach hierarchy target incoming = .ok next)
    (roomy : search.Roomy) (fits : incoming.locals.length ≤ search.typing.maxLocals) :
    next.Roomy := by
  rcases reach_cases done with ⟨rfl, -⟩ | ⟨-, rfl⟩ |
    ⟨existing, merged, found, mergedFound, -, rfl⟩
  · exact roomy
  · exact put_roomy inside roomy fits
  · have room := roomy target existing found
    have length := Hierarchy.mergeFrames_locals mergedFound
    exact put_roomy inside roomy (by omega)

/-- What is left when all edges out of an item have been followed. -/
structure Follows (below : VFrame → VFrame → Prop) (edges : List (Nat × VFrame))
    (old new : FrameSearch) : Prop where
  grows : Grows below old new
  held : ∀ edge ∈ edges, Holds below new.typing edge.1 edge.2
  reached {position : Nat} {frame : VFrame} : new.typing.frameAt position = some frame →
    (∃ earlier, old.typing.frameAt position = some earlier) ∨ ∃ edge ∈ edges, position = edge.1
  roomy : old.Roomy → (∀ edge ∈ edges, edge.2.locals.length ≤ old.typing.maxLocals) → new.Roomy

theorem follow_edges (ascends : Ascends hierarchy below) {edges : List (Nat × VFrame)}
    {search next : FrameSearch} (inside : ∀ edge ∈ edges, edge.1 < search.typing.frames.size)
    (done : edges.foldlM (fun search (target, incoming) => search.reach hierarchy target incoming)
      search = .ok next) :
    Follows below edges search next := by
  induction edges generalizing search with
  | nil =>
    cases Outcome.pure_ok.mp done
    exact ⟨.refl ascends _, by simp, fun found => .inl ⟨_, found⟩, fun roomy _ => roomy⟩
  | cons edge rest ih =>
    rw [List.foldlM_cons] at done
    obtain ⟨middle, middleFound, later⟩ := Outcome.bind_ok.mp done
    have edgeInside := inside edge List.mem_cons_self
    obtain ⟨grows, held⟩ := reach_grows ascends edgeInside middleFound
    have followed := ih (fun other member => by
      rw [grows.size]
      exact inside other (List.mem_cons_of_mem edge member)) later
    refine ⟨grows.trans ascends followed.grows, ?_, ?_, ?_⟩
    · intro other member
      rcases List.mem_cons.mp member with rfl | member
      · exact followed.grows.holds ascends held
      · exact followed.held other member
    · intro position frame found
      rcases followed.reached found with ⟨earlier, earlierFound⟩ | ⟨other, member, same⟩
      · rcases reach_frameAt edgeInside middleFound earlierFound with earliest | same
        · exact .inl ⟨earlier, earliest⟩
        · exact .inr ⟨edge, List.mem_cons_self, same⟩
      · exact .inr ⟨other, List.mem_cons_of_mem edge member, same⟩
    · intro roomy fits
      refine followed.roomy (reach_roomy edgeInside middleFound roomy
        (fits edge List.mem_cons_self)) fun other member => ?_
      rw [← grows.maxLocals]
      exact fits other (List.mem_cons_of_mem edge member)

end Growth

section Run

variable {hierarchy : Hierarchy} {below : VFrame → VFrame → Prop} {graph : FlowGraph}
  {body : Body} {method : MethodContext}

/-- The item at a position can take its frame, has passed its frames on, and has room for them. -/
structure Settled (below : VFrame → VFrame → Prop) (graph : FlowGraph) (method : MethodContext)
    (typing : Typing) (position : Nat) (before : VFrame) (item : Item)
    (effect : FlowGraph.Effect) : Prop where
  found : graph.items[position]? = some item
  done : graph.effect method position item before = .ok effect
  held : ∀ edge ∈ effect.edges, Holds below typing edge.1 edge.2
  depths : max before.depth effect.after.depth ≤ typing.maxStack
  locals : effect.after.locals.length ≤ typing.maxLocals

/-- What is true of a search between two steps. -/
structure Invariant (below : VFrame → VFrame → Prop) (graph : FlowGraph) (body : Body)
    (method : MethodContext) (search : FrameSearch) : Prop where
  size : search.typing.frames.size = body.items.length
  entry : Holds below search.typing 0 (VFrame.initial method)
  parameters : (VFrame.initial method).locals.length ≤ search.typing.maxLocals
  reached {position : Nat} {frame : VFrame} :
    search.typing.frameAt position = some frame → body.Reachable position
  roomy : search.Roomy
  settled {position : Nat} {before : VFrame} : search.typing.frameAt position = some before →
    position ∉ search.pending →
      ∃ item effect, Settled below graph method search.typing position before item effect

/-- A search that has no frames yet. -/
def blank (graph : FlowGraph) (method : MethodContext) : FrameSearch :=
  ⟨⟨Array.replicate graph.items.size none, 0, (VFrame.initial method).locals.length⟩, []⟩

theorem frameAt_blank (position : Nat) :
    (blank graph method).typing.frameAt position = none := by
  simp only [blank, Typing.frameAt, Array.getElem?_replicate]
  split <;> rfl

theorem start_cases {search : FrameSearch} (started : start graph method = .ok search) :
    0 < graph.items.size ∧ search = (blank graph method).put 0 (VFrame.initial method) := by
  unfold start at started
  simp only at started
  split at started
  · rename_i nonempty
    cases started
    exact ⟨nonempty, rfl⟩
  · cases started

theorem start_invariant (ascends : Ascends hierarchy below) (described : graph.Describes body)
    {search : FrameSearch} (started : start graph method = .ok search) :
    Invariant below graph body method search := by
  obtain ⟨nonempty, rfl⟩ := start_cases started
  have inside : 0 < (blank graph method).typing.frames.size := by simpa [blank] using nonempty
  have only {position : Nat} {frame : VFrame}
      (found : ((blank graph method).put 0 (VFrame.initial method)).typing.frameAt position =
        some frame) : position = 0 ∧ frame = VFrame.initial method := by
    rw [frameAt_put inside, frameAt_blank] at found
    split at found
    · rename_i same
      exact ⟨same.symm, (Option.some.inj found).symm⟩
    · cases found
  refine ⟨by simp [put, blank, described.size], ?_, Nat.le_refl _, ?_, ?_, ?_⟩
  · exact ⟨VFrame.initial method, by rw [frameAt_put inside, if_pos rfl], ascends.refl _⟩
  · intro position frame found
    obtain ⟨rfl, -⟩ := only found
    exact .refl
  · intro position frame found
    obtain ⟨-, rfl⟩ := only found
    exact Nat.le_refl _
  · intro position before found waiting
    obtain ⟨rfl, -⟩ := only found
    exact (waiting List.mem_cons_self).elim

/-- The frames that an item passes on have no more locals than those before and after it. -/
theorem passes_locals {position target : Nat} {before after passed : VFrame}
    (passes : body.Passes position before after target passed) :
    passed.locals.length ≤ max before.locals.length after.locals.length := by
  cases passes with
  | successor => exact Nat.le_max_right _ _
  | thrownBefore => exact Nat.le_max_left _ _
  | thrownAfter => exact Nat.le_max_right _ _

theorem le_foldl_max (depths : List Nat) (most : Nat) : most ≤ depths.foldl max most := by
  induction depths generalizing most with
  | nil => exact Nat.le_refl most
  | cons depth rest ih => exact (Nat.le_max_left most depth).trans (ih (max most depth))

/-- A step at a position with a frame follows the edges out of its item. -/
theorem step_cases (described : graph.Describes body) {typing : Typing} {position : Nat}
    {pending : List Nat} {next : FrameSearch} (size : typing.frames.size = body.items.length)
    (done : step hierarchy graph method position ⟨typing, pending⟩ = .ok next) :
    (typing.frameAt position = none ∧ next = ⟨typing, pending⟩) ∨
    ∃ before item effect, typing.frameAt position = some before ∧
      body.items[position]? = some item ∧
      graph.effect method position item before = .ok effect ∧
      effect.edges.foldlM (fun search (target, incoming) => search.reach hierarchy target incoming)
        (measure ⟨typing, pending⟩ before effect) = .ok next := by
  unfold step at done
  split at done
  · rename_i before item beforeFound itemFound
    obtain ⟨effect, effectFound, later⟩ := Outcome.bind_ok.mp done
    exact .inr ⟨before, item, effect, beforeFound, described.getElem? position ▸ itemFound,
      effectFound, later⟩
  · rename_i missing
    cases done
    refine .inl ⟨?_, rfl⟩
    cases beforeFound : typing.frameAt position with
    | none => rfl
    | some before =>
      have inside : position < typing.frames.size := by
        by_contra outside
        rw [Typing.frameAt, Array.getElem?_eq_none (by omega)] at beforeFound
        cases beforeFound
      have itemFound : graph.items[position]? = some body.items[position] := by
        rw [described.getElem?, List.getElem?_eq_getElem]
      exact (missing before _ beforeFound itemFound).elim

section Measure

variable (search : FrameSearch) (before : VFrame) (effect : FlowGraph.Effect)

theorem measure_frames : (search.measure before effect).typing.frames = search.typing.frames := rfl

theorem measure_maxLocals : (search.measure before effect).typing.maxLocals =
    max search.typing.maxLocals effect.after.locals.length := rfl

/-- There is room for the stacks before and after an item, and for all that there was room for. -/
theorem measure_maxStack :
    max search.typing.maxStack (max before.depth effect.after.depth) ≤
      (search.measure before effect).typing.maxStack :=
  le_foldl_max _ _

end Measure

/-- A settled item stays settled while the search goes on. -/
theorem Settled.grow {old new : Typing} {position : Nat} {before : VFrame} {item : Item}
    {effect : FlowGraph.Effect} (settled : Settled below graph method old position before item effect)
    (held : ∀ {position frame}, Holds below old position frame → Holds below new position frame)
    (maxStack : old.maxStack ≤ new.maxStack) (maxLocals : old.maxLocals ≤ new.maxLocals) :
    Settled below graph method new position before item effect where
  found := settled.found
  done := settled.done
  held edge member := held (settled.held edge member)
  depths := settled.depths.trans maxStack
  locals := settled.locals.trans maxLocals

/-- One step settles the position that it is taken at, and leaves the others settled. -/
theorem step_invariant (ascends : Ascends hierarchy below) (described : graph.Describes body)
    {typing : Typing} {position : Nat} {pending : List Nat} {next : FrameSearch}
    (invariant : Invariant below graph body method ⟨typing, position :: pending⟩)
    (done : step hierarchy graph method position ⟨typing, pending⟩ = .ok next) :
    Invariant below graph body method next := by
  rcases step_cases described invariant.size done with ⟨missing, rfl⟩ |
    ⟨before, item, effect, beforeFound, itemFound, effectFound, edgesDone⟩
  · refine ⟨invariant.size, invariant.entry, invariant.parameters, invariant.reached,
      invariant.roomy, ?_⟩
    intro other frame found waiting
    refine invariant.settled found fun member => ?_
    rcases List.mem_cons.mp member with rfl | member
    · rw [missing] at found
      cases found
    · exact waiting member
  have passes {edge : Nat × VFrame} (member : edge ∈ effect.edges) :
      body.Passes position before effect.after edge.1 edge.2 :=
    (described.mem_edges itemFound effectFound edge.1 edge.2).mp member
  have followed := follow_edges ascends (fun edge member => by
    rw [measure_frames]
    exact invariant.size ▸ described.edge_inside itemFound effectFound member) edgesDone
  have measured := measure_maxStack ⟨typing, pending⟩ before effect
  have maxStack : typing.maxStack ≤ next.typing.maxStack :=
    followed.grows.maxStack ▸ (Nat.le_max_left _ _).trans measured
  have maxLocals : max typing.maxLocals effect.after.locals.length = next.typing.maxLocals :=
    followed.grows.maxLocals
  have held {place : Nat} {frame : VFrame} (earlier : Holds below typing place frame) :
      Holds below next.typing place frame := followed.grows.holds ascends earlier
  refine ⟨followed.grows.size.trans invariant.size, held invariant.entry,
    maxLocals ▸ invariant.parameters.trans (Nat.le_max_left _ _), ?_, ?_, ?_⟩
  · intro other frame found
    rcases followed.reached found with ⟨earlier, earlierFound⟩ | ⟨edge, member, rfl⟩
    · exact invariant.reached earlierFound
    · exact .tail (invariant.reached beforeFound) (passes member).edge
  · refine followed.roomy (fun other frame found => ?_) fun edge member => ?_
    · exact (invariant.roomy other frame found).trans (Nat.le_max_left _ _)
    · have room := invariant.roomy position before beforeFound
      have fits := passes_locals (passes member)
      simp only [measure_maxLocals] at room fits ⊢
      omega
  · intro other frame found waiting
    have same := (followed.grows.unchanged waiting).symm.trans found
    by_cases here : other = position
    · subst here
      cases Option.some.inj (beforeFound.symm.trans same)
      exact ⟨item, effect, described.getElem? other ▸ itemFound, effectFound, followed.held,
        followed.grows.maxStack ▸ (Nat.le_max_right _ _).trans measured,
        maxLocals ▸ Nat.le_max_right _ _⟩
    · obtain ⟨otherItem, otherEffect, settled⟩ := invariant.settled same fun member =>
        waiting (followed.grows.pending ((List.mem_cons.mp member).resolve_left here))
      exact ⟨otherItem, otherEffect, settled.grow held maxStack
        (maxLocals ▸ Nat.le_max_left _ _)⟩

theorem run_next {typing : Typing} {position fuel : Nat} {pending : List Nat} {next : FrameSearch}
    (stepped : step hierarchy graph method position ⟨typing, pending⟩ = .ok next) :
    run hierarchy graph method (fuel + 1) ⟨typing, position :: pending⟩ =
      run hierarchy graph method fuel next := by
  rw [run, stepped]
  rfl

/-- What a run keeps. -/
theorem run_invariant (ascends : Ascends hierarchy below) (described : graph.Describes body)
    {fuel : Nat} {search final : FrameSearch}
    (invariant : Invariant below graph body method search)
    (done : run hierarchy graph method fuel search = .ok final) :
    Invariant below graph body method final := by
  induction fuel generalizing search with
  | zero =>
    cases done
    exact invariant
  | succ fuel ih =>
    obtain ⟨typing, pending⟩ := search
    cases pending with
    | nil =>
      cases done
      exact invariant
    | cons position pending =>
      obtain ⟨next, stepped, later⟩ := Outcome.bind_ok.mp done
      exact ih (step_invariant ascends described invariant stepped) later

/-- The run behind inferred frames. -/
theorem inferFrames_cases {typing : Typing}
    (found : body.inferFrames method hierarchy = .ok typing) :
    ∃ graph search, graph.Describes body ∧ start graph method = .ok search ∧
      search.run hierarchy graph method maxSteps = .ok ⟨typing, []⟩ := by
  obtain ⟨graph, built, later⟩ := Outcome.bind_ok.mp found
  obtain ⟨search, started, later⟩ := Outcome.bind_ok.mp later
  obtain ⟨final, ran, ended⟩ := Outcome.bind_ok.mp later
  split at ended
  · cases Outcome.pure_ok.mp ended
    exact ⟨graph, search, FlowGraph.ofBody_describes built, started, ran⟩
  · exact (Outcome.not_throw_ok ended).elim

/-- The frames that inference finds keep the invariant with nothing pending. -/
theorem inferFrames_invariant (ascends : Ascends hierarchy below) {typing : Typing}
    (found : body.inferFrames method hierarchy = .ok typing) :
    ∃ graph : FlowGraph, graph.Describes body ∧
      Invariant below graph body method ⟨typing, []⟩ := by
  obtain ⟨graph, search, described, started, ran⟩ := inferFrames_cases found
  exact ⟨graph, described,
    run_invariant ascends described (start_invariant ascends described started) ran⟩

end Run

end FrameSearch

end ClassWeave
