import Mathlib.Logic.Relation
import ClassWeave.Proofs.Outcome
import ClassWeave.Typing.Inference

/-!
# Where control can go

The paths through a body, as its items, labels and handlers give them. The graph that typing works
on has the same labels and the same handlers, and the effect of an item leads where control can go.
-/

namespace ClassWeave

/-- The type of the exceptions that a handler starts with. -/
def Handler.caught (handler : Handler) : VType :=
  VType.ofClass (handler.catchType.getD .throwable)

namespace Body

variable {body : Body}

def LabelAt (body : Body) (label : Label) (position : Nat) : Prop :=
  body.items[position]? = some (.label label)

/-- The items stand in the body from a position on. -/
def HasAt (body : Body) (base : Nat) (items : List Item) : Prop :=
  ∀ (index : Nat) (item : Item), items[index]? = some item → body.items[base + index]? = some item

theorem hasAt_append {base : Nat} {earlier later : List Item} :
    body.HasAt base (earlier ++ later) ↔
      body.HasAt base earlier ∧ body.HasAt (base + earlier.length) later := by
  constructor
  · intro has
    refine ⟨fun index item found => has index item ?_, fun index item found => ?_⟩
    · rw [List.getElem?_append_left (List.getElem?_eq_some_iff.mp found).1, found]
    · rw [Nat.add_assoc]
      refine has (earlier.length + index) item ?_
      rw [List.getElem?_append_right (Nat.le_add_right _ _), Nat.add_sub_cancel_left, found]
  · rintro ⟨first, second⟩ index item found
    rcases Nat.lt_or_ge index earlier.length with before | behind
    · rw [List.getElem?_append_left before] at found
      exact first index item found
    · rw [List.getElem?_append_right behind] at found
      have there := second _ item found
      rwa [Nat.add_assoc, Nat.add_sub_cancel' behind] at there

/-- Where control can go from an item unless there is an exception. -/
inductive Successor (body : Body) (source : Nat) : Nat → Prop where
  | jump {jump : Branch Label} {label : Label} {target : Nat}
      (found : body.items[source]? = some (.branch jump)) (member : label ∈ jump.targets)
      (placed : body.LabelAt label target) : Successor body source target
  | next {item : Item} (found : body.items[source]? = some item)
      (falls : FlowGraph.fallsThrough item = true) : Successor body source (source + 1)

/-- The handler is in charge of exceptions of the code at a position. -/
structure Protects (body : Body) (handler : Handler) (position : Nat) : Prop where
  member : handler ∈ body.handlers
  isCode : ∃ item, body.items[position]? = some item ∧ item.isCode = true
  inside : ∃ start stop, body.LabelAt handler.start start ∧ body.LabelAt handler.stop stop ∧
    start ≤ position ∧ position < stop

/-- Where control can go from an item, exceptions included. -/
inductive Edge (body : Body) (source target : Nat) : Prop where
  | successor (next : body.Successor source target)
  | exception {handler : Handler} (covered : body.Protects handler source)
      (placed : body.LabelAt handler.target target)

/-- Control can get from the first item to this one. -/
def Reachable (body : Body) (position : Nat) : Prop := Relation.ReflTransGen body.Edge 0 position

/-- The frames that an item passes on, given those before and after it. An exception can come
before the item's effect or after it. -/
inductive Passes (body : Body) (source : Nat) (before after : VFrame) : Nat → VFrame → Prop where
  | successor {target : Nat} (next : body.Successor source target) :
      Passes body source before after target after
  | thrownBefore {handler : Handler} {target : Nat} (covered : body.Protects handler source)
      (placed : body.LabelAt handler.target target) :
      Passes body source before after target ⟨before.locals, [handler.caught]⟩
  | thrownAfter {handler : Handler} {target : Nat} (covered : body.Protects handler source)
      (placed : body.LabelAt handler.target target) :
      Passes body source before after target ⟨after.locals, [handler.caught]⟩

/-- Some frame is passed on wherever control can go. -/
theorem Edge.passes {source target : Nat} (edge : body.Edge source target) (before after : VFrame) :
    ∃ passed, body.Passes source before after target passed := by
  cases edge with
  | successor next => exact ⟨_, .successor next⟩
  | exception covered placed => exact ⟨_, .thrownBefore covered placed⟩

theorem Passes.edge {source target : Nat} {before after passed : VFrame}
    (passes : body.Passes source before after target passed) : body.Edge source target := by
  cases passes with
  | successor next => exact .successor next
  | thrownBefore covered placed => exact .exception covered placed
  | thrownAfter covered placed => exact .exception covered placed

theorem mem_placedLabels {label : Label} {position : Nat} :
    (label, position) ∈ body.placedLabels ↔ body.LabelAt label position := by
  simp only [placedLabels, List.mem_filterMap, LabelAt, Prod.exists]
  constructor
  · rintro ⟨item, index, member, found⟩
    cases item with
    | label mark =>
      simp only [Item.label?, Option.map_some, Option.some.injEq, Prod.mk.injEq] at found
      obtain ⟨rfl, rfl⟩ := found
      exact List.mk_mem_zipIdx_iff_getElem?.mp member
    | line | instruction | branch => simp [Item.label?] at found
  · intro placed
    exact ⟨.label label, position, List.mk_mem_zipIdx_iff_getElem?.mpr placed, rfl⟩

end Body

namespace FlowGraph

/-- Labels keep the positions that they have, as none is placed twice. -/
theorem addLabels_getElem? {positions found : Std.HashMap Label Nat} {pairs : List (Label × Nat)}
    (added : addLabels positions pairs = .ok found) (label : Label) (position : Nat) :
    found[label]? = some position ↔
      positions[label]? = some position ∨ (label, position) ∈ pairs := by
  induction pairs generalizing positions with
  | nil =>
    cases added
    simp
  | cons pair rest ih =>
    obtain ⟨mark, place⟩ := pair
    rw [addLabels] at added
    split at added
    · cases added
    · rename_i fresh
      rw [ih added, Std.HashMap.getElem?_insert, List.mem_cons, Prod.mk.injEq]
      by_cases same : mark = label
      · subst same
        have absent : positions[mark]? = none := by simpa using fresh
        simp [absent, eq_comm]
      · simp [same, Ne.symm same]

/-- A handler with its labels turned into positions. -/
def Resolves (body : Body) (handler : Handler) (range : Coverage) : Prop :=
  body.LabelAt handler.start range.start ∧ body.LabelAt handler.stop range.stop ∧
    body.LabelAt handler.target range.target ∧ handler.caught = range.caught

/-- The graph has the items, labels and handlers of the body. -/
structure Describes (graph : FlowGraph) (body : Body) : Prop where
  items : graph.items = body.items.toArray
  positions (label : Label) (position : Nat) :
    graph.positions[label]? = some position ↔ body.LabelAt label position
  coverage (range : Coverage) :
    range ∈ graph.coverage ↔ ∃ handler ∈ body.handlers, Resolves body handler range
  handlers : ∀ handler ∈ body.handlers, ∃ range, Resolves body handler range

theorem positionIn_ok {positions : Std.HashMap Label Nat} {label : Label} {position : Nat} :
    positionIn positions label = .ok position ↔ positions[label]? = some position := by
  unfold positionIn
  split
  · rename_i found
    simp [found]
  · rename_i missing
    simp [missing]

theorem coverageOf_ok {body : Body} {positions : Std.HashMap Label Nat}
    (places : ∀ label position, positions[label]? = some position ↔ body.LabelAt label position)
    {handler : Handler} {range : Coverage} :
    coverageOf positions handler = .ok range ↔ Resolves body handler range := by
  simp only [coverageOf, Outcome.bind_ok, Outcome.pure_ok, positionIn_ok, places]
  constructor
  · rintro ⟨start, startPlaced, stop, stopPlaced, target, targetPlaced, rfl⟩
    exact ⟨startPlaced, stopPlaced, targetPlaced, rfl⟩
  · rintro ⟨startPlaced, stopPlaced, targetPlaced, caught⟩
    refine ⟨_, startPlaced, _, stopPlaced, _, targetPlaced, ?_⟩
    cases range
    cases caught
    rfl

theorem ofBody_describes {body : Body} {graph : FlowGraph} (built : ofBody body = .ok graph) :
    graph.Describes body := by
  obtain ⟨positions, added, later⟩ := Outcome.bind_ok.mp built
  obtain ⟨coverage, covered, same⟩ := Outcome.bind_ok.mp later
  cases Outcome.pure_ok.mp same
  have places (label : Label) (position : Nat) :
      positions[label]? = some position ↔ body.LabelAt label position := by
    simp [addLabels_getElem? added, Body.mem_placedLabels]
  refine ⟨rfl, places, fun range => ?_, fun handler member => ?_⟩
  · simp only [Outcome.mem_mapM covered, coverageOf_ok places]
  · obtain ⟨range, -, found⟩ := Outcome.mapM_total covered member
    exact ⟨range, (coverageOf_ok places).mp found⟩

namespace Describes

variable {graph : FlowGraph} {body : Body}

theorem getElem? (described : graph.Describes body) (position : Nat) :
    graph.items[position]? = body.items[position]? := by
  simp [described.items]

theorem size (described : graph.Describes body) : graph.items.size = body.items.length := by
  simp [described.items]

/-- A label is in one place only. -/
theorem label_unique (described : graph.Describes body) {label : Label} {first second : Nat}
    (firstPlaced : body.LabelAt label first) (secondPlaced : body.LabelAt label second) :
    first = second := by
  have firstFound := (described.positions label first).mpr firstPlaced
  have secondFound := (described.positions label second).mpr secondPlaced
  exact Option.some.inj (firstFound.symm.trans secondFound)

theorem positionIn_ok_iff (described : graph.Describes body) {label : Label} {position : Nat} :
    positionIn graph.positions label = .ok position ↔ body.LabelAt label position := by
  rw [positionIn_ok, described.positions]

theorem mem_jumpsFrom (described : graph.Describes body) {item : Item} {jumps : List Nat}
    (followed : graph.jumpsFrom item = .ok jumps) (target : Nat) :
    target ∈ jumps ↔ ∃ jump label, item = .branch jump ∧ label ∈ jump.targets ∧
      body.LabelAt label target := by
  cases item with
  | branch jump =>
    rw [jumpsFrom] at followed
    simp [Outcome.mem_mapM followed, described.positionIn_ok_iff]
  | label | line | instruction =>
    cases followed
    simp

theorem mem_successors (described : graph.Describes body) {position : Nat} {item : Item}
    {targets : List Nat} (found : body.items[position]? = some item)
    (followed : graph.successors position item = .ok targets) (target : Nat) :
    target ∈ targets ↔ body.Successor position target := by
  obtain ⟨jumps, jumpsFound, later⟩ := Outcome.bind_ok.mp followed
  have jumpTargets := described.mem_jumpsFrom jumpsFound target
  have jumping : target ∈ jumps → body.Successor position target := by
    intro member
    obtain ⟨jump, label, rfl, isTarget, placed⟩ := jumpTargets.mp member
    exact .jump found isTarget placed
  have member_of_jump {jump : Branch Label} {label : Label}
      (isJump : body.items[position]? = some (.branch jump)) (isTarget : label ∈ jump.targets)
      (placed : body.LabelAt label target) : target ∈ jumps :=
    jumpTargets.mpr ⟨jump, label, Option.some.inj (found.symm.trans isJump), isTarget, placed⟩
  split at later
  · rename_i falls
    split at later
    · cases Outcome.pure_ok.mp later
      rw [List.mem_append, List.mem_singleton]
      constructor
      · rintro (member | rfl)
        · exact jumping member
        · exact .next found falls
      · intro next
        cases next with
        | jump isJump isTarget placed => exact .inl (member_of_jump isJump isTarget placed)
        | next => exact .inr rfl
    · exact (Outcome.not_throw_ok later).elim
  · rename_i stops
    cases Outcome.pure_ok.mp later
    refine ⟨jumping, fun next => ?_⟩
    cases next with
    | jump isJump isTarget placed => exact member_of_jump isJump isTarget placed
    | next same falls =>
      cases Option.some.inj (found.symm.trans same)
      exact absurd falls stops

/-- Control does not leave the body. -/
theorem successor_inside (described : graph.Describes body) {position : Nat} {item : Item}
    {targets : List Nat} (found : body.items[position]? = some item)
    (followed : graph.successors position item = .ok targets) {target : Nat}
    (next : body.Successor position target) : target < body.items.length := by
  cases next with
  | jump _ _ placed => exact (List.getElem?_eq_some_iff.mp placed).1
  | next same falls =>
    cases Option.some.inj (found.symm.trans same)
    obtain ⟨jumps, jumpsFound, later⟩ := Outcome.bind_ok.mp followed
    rw [if_pos falls] at later
    split at later
    · rename_i inside
      exact described.size ▸ inside
    · exact (Outcome.not_throw_ok later).elim

/-- All labels that an item jumps to are placed. -/
theorem jump_placed (described : graph.Describes body) {position : Nat} {jump : Branch Label}
    {targets : List Nat} (followed : graph.successors position (.branch jump) = .ok targets)
    {label : Label} (member : label ∈ jump.targets) : ∃ target, body.LabelAt label target := by
  obtain ⟨jumps, jumpsFound, later⟩ := Outcome.bind_ok.mp followed
  obtain ⟨target, -, placed⟩ := Outcome.mapM_total jumpsFound member
  exact ⟨target, described.positionIn_ok_iff.mp placed⟩

theorem mem_handlersAt (described : graph.Describes body) {position : Nat} {item : Item}
    (found : body.items[position]? = some item) (code : item.isCode = true) (range : Coverage) :
    range ∈ graph.handlersAt position ↔
      ∃ handler, body.Protects handler position ∧ Resolves body handler range := by
  simp only [handlersAt, List.mem_filter, described.coverage, Bool.and_eq_true, decide_eq_true_eq]
  constructor
  · rintro ⟨⟨handler, member, resolved⟩, bounds⟩
    exact ⟨handler, ⟨member, ⟨item, found, code⟩, range.start, range.stop, resolved.1,
      resolved.2.1, bounds⟩, resolved⟩
  · rintro ⟨handler, ⟨member, -, start, stop, startPlaced, stopPlaced, bounds⟩, resolved⟩
    cases described.label_unique startPlaced resolved.1
    cases described.label_unique stopPlaced resolved.2.1
    exact ⟨⟨handler, member, resolved⟩, bounds⟩

/-- The edges out of an item carry the frames that it passes on. -/
theorem mem_edges (described : graph.Describes body) {method : MethodContext} {position : Nat}
    {item : Item} {before : VFrame} {effect : Effect}
    (found : body.items[position]? = some item)
    (done : graph.effect method position item before = .ok effect) (target : Nat)
    (passed : VFrame) :
    (target, passed) ∈ effect.edges ↔ body.Passes position before effect.after target passed := by
  obtain ⟨after, afterFound, later⟩ := Outcome.bind_ok.mp done
  obtain ⟨targets, targetsFound, same⟩ := Outcome.bind_ok.mp later
  cases Outcome.pure_ok.mp same
  simp only [List.mem_append, List.mem_map, Prod.mk.injEq,
    described.mem_successors found targetsFound]
  constructor
  · rintro (⟨next, isNext, rfl, rfl⟩ | thrown)
    · exact .successor isNext
    · rw [exceptionEdges] at thrown
      split at thrown
      · rename_i code
        obtain ⟨range, covered, passing⟩ := List.mem_flatMap.mp thrown
        obtain ⟨handler, covers, -, -, placed, caught⟩ :=
          (described.mem_handlersAt found code range).mp covered
        rw [← caught] at passing
        rcases List.mem_pair.mp passing with same | same
        · cases same
          exact .thrownBefore covers placed
        · cases same
          exact .thrownAfter covers placed
      · cases thrown
  · have thrown {handler : Handler} {frame : VFrame} (covers : body.Protects handler position)
        (placed : body.LabelAt handler.target target)
        (either : frame = before ∨ frame = after) :
        (target, (⟨frame.locals, [handler.caught]⟩ : VFrame)) ∈
          graph.exceptionEdges position item before after := by
      obtain ⟨member, ⟨same, sameFound, code⟩, start, stop, startPlaced, stopPlaced, bounds⟩ :=
        covers
      cases Option.some.inj (found.symm.trans sameFound)
      rw [exceptionEdges, if_pos code]
      refine List.mem_flatMap.mpr ⟨⟨start, stop, target, handler.caught⟩, ?_, ?_⟩
      · exact (described.mem_handlersAt found code _).mpr ⟨handler,
          ⟨member, ⟨item, found, code⟩, start, stop, startPlaced, stopPlaced, bounds⟩,
          startPlaced, stopPlaced, placed, rfl⟩
      · rcases either with rfl | rfl <;> simp
    intro passes
    cases passes with
    | successor next => exact .inl ⟨target, next, rfl, rfl⟩
    | thrownBefore covers placed => exact .inr (thrown covers placed (.inl rfl))
    | thrownAfter covers placed => exact .inr (thrown covers placed (.inr rfl))

/-- Control that leaves an item ends up in the body. -/
theorem edge_inside (described : graph.Describes body) {method : MethodContext} {position : Nat}
    {item : Item} {before : VFrame} {effect : Effect}
    (found : body.items[position]? = some item)
    (done : graph.effect method position item before = .ok effect) {edge : Nat × VFrame}
    (member : edge ∈ effect.edges) : edge.1 < body.items.length := by
  obtain ⟨after, afterFound, later⟩ := Outcome.bind_ok.mp done
  obtain ⟨targets, targetsFound, -⟩ := Outcome.bind_ok.mp later
  obtain ⟨target, passed⟩ := edge
  have passes := (described.mem_edges found done target passed).mp member
  generalize effect.after = after at passes
  cases passes with
  | successor next => exact described.successor_inside found targetsFound next
  | thrownBefore _ placed | thrownAfter _ placed => exact (List.getElem?_eq_some_iff.mp placed).1

end Describes

end FlowGraph

end ClassWeave
