import Mathlib.Data.Nat.Find
import ClassWeave.Proofs.Typing.Fixpoint

/-!
# What can be reached

Inference finds a frame for an item exactly if a path leads there, whatever the hierarchy is like.
No path leads out of a body that has frames, so from every item on a path some code comes next.
-/

namespace ClassWeave

namespace FrameSearch

variable {below : VFrame → VFrame → Prop} {graph : FlowGraph} {body : Body}
  {method : MethodContext} {typing : Typing}

/-- Frames that are held along all edges are where paths lead. -/
theorem Invariant.isReachable (described : graph.Describes body)
    (invariant : Invariant below graph body method ⟨typing, []⟩) (position : Nat) :
    typing.isReachable position = true ↔ body.Reachable position := by
  rw [Typing.isReachable, Option.isSome_iff_exists]
  constructor
  · rintro ⟨frame, found⟩
    exact invariant.reached found
  · intro path
    induction path with
    | refl =>
      obtain ⟨frame, found, -⟩ := invariant.entry
      exact ⟨frame, found⟩
    | tail _ edge ih =>
      obtain ⟨before, beforeFound⟩ := ih
      obtain ⟨item, effect, settled⟩ := invariant.settled beforeFound List.not_mem_nil
      have itemFound := settled.found
      rw [described.getElem?] at itemFound
      obtain ⟨passed, passes⟩ := edge.passes before effect.after
      have member := (described.mem_edges itemFound settled.done _ _).mpr passes
      obtain ⟨frame, found, -⟩ := settled.held _ member
      exact ⟨frame, found⟩

end FrameSearch

namespace Body

variable {body : Body}

/-- The item at a position is executed. -/
def IsCodeAt (body : Body) (position : Nat) : Prop :=
  ∃ item, body.items[position]? = some item ∧ item.isCode = true

theorem IsCodeAt.inside {position : Nat} (isCode : body.IsCodeAt position) :
    position < body.items.length := by
  obtain ⟨item, found, -⟩ := isCode
  exact (List.getElem?_eq_some_iff.mp found).1

/-- The first item from a position on that is executed. -/
structure FirstCode (body : Body) (position code : Nat) : Prop where
  ahead : position ≤ code
  isCode : body.IsCodeAt code
  skipped {place : Nat} : position ≤ place → place < code → ¬ body.IsCodeAt place

theorem exists_firstCode {position later : Nat} (ahead : position ≤ later)
    (isCode : body.IsCodeAt later) : ∃ code, body.FirstCode position code ∧ code ≤ later := by
  classical
  have some : ∃ code, position ≤ code ∧ body.IsCodeAt code := ⟨later, ahead, isCode⟩
  obtain ⟨fromPosition, first⟩ := Nat.find_spec some
  refine ⟨Nat.find some, ⟨fromPosition, first, fun past before executed => ?_⟩,
    Nat.find_min' some ⟨ahead, isCode⟩⟩
  exact Nat.find_min some before ⟨past, executed⟩

theorem FirstCode.unique {position first second : Nat} (firstCode : body.FirstCode position first)
    (secondCode : body.FirstCode position second) : first = second := by
  rcases Nat.lt_trichotomy first second with before | same | after
  · exact (secondCode.skipped firstCode.ahead before firstCode.isCode).elim
  · exact same
  · exact (firstCode.skipped secondCode.ahead after secondCode.isCode).elim

theorem FirstCode.skip {position code : Nat} (first : body.FirstCode (position + 1) code)
    (mark : ¬ body.IsCodeAt position) : body.FirstCode position code := by
  refine ⟨Nat.le_of_succ_le first.ahead, first.isCode, fun {place} ahead before => ?_⟩
  rcases Nat.eq_or_lt_of_le ahead with rfl | later
  · exact mark
  · exact first.skipped later before

theorem not_isCodeAt {position : Nat} {item : Item} (found : body.items[position]? = some item)
    (mark : item.isCode = false) : ¬ body.IsCodeAt position := by
  rintro ⟨other, same, executed⟩
  cases Option.some.inj (found.symm.trans same)
  rw [mark] at executed
  cases executed

/-- Labels lead to one place each, and no path leads out of the body. -/
structure Closed (body : Body) : Prop where
  inside {position : Nat} : body.Reachable position → position < body.items.length
  labels {label : Label} {first second : Nat} :
    body.LabelAt label first → body.LabelAt label second → first = second
  jumps {position : Nat} {jump : Branch Label} {label : Label} : body.Reachable position →
    body.items[position]? = some (.branch jump) → label ∈ jump.targets →
      ∃ target, body.LabelAt label target
  handlers : ∀ handler ∈ body.handlers, ∃ start stop target, body.LabelAt handler.start start ∧
    body.LabelAt handler.stop stop ∧ body.LabelAt handler.target target

/-- A body with frames is closed, and its frames tell what can be reached. -/
theorem inferFrames_closed {method : MethodContext} {hierarchy : Hierarchy} {typing : Typing}
    (found : body.inferFrames method hierarchy = .ok typing) :
    body.Closed ∧ ∀ position, typing.isReachable position = true ↔ body.Reachable position := by
  obtain ⟨graph, described, invariant⟩ :=
    FrameSearch.inferFrames_invariant (FrameSearch.ascends_trivially hierarchy) found
  have reachable := invariant.isReachable described
  refine ⟨⟨fun {position} path => ?_, described.label_unique, ?_, fun handler member => ?_⟩,
    reachable⟩
  · by_contra outside
    have missing : typing.frameAt position = none := by
      rw [Typing.frameAt, Array.getElem?_eq_none (invariant.size ▸ Nat.le_of_not_lt outside)]
      rfl
    have present := (reachable position).mpr path
    rw [Typing.isReachable, missing] at present
    cases present
  · intro position jump label path isJump member
    obtain ⟨frame, frameFound⟩ := Option.isSome_iff_exists.mp ((reachable position).mpr path)
    obtain ⟨item, effect, settled⟩ := invariant.settled frameFound List.not_mem_nil
    have itemFound := settled.found
    rw [described.getElem?, isJump] at itemFound
    cases itemFound
    obtain ⟨after, -, later⟩ := Outcome.bind_ok.mp settled.done
    obtain ⟨targets, targetsFound, -⟩ := Outcome.bind_ok.mp later
    exact described.jump_placed targetsFound member
  · obtain ⟨range, start, stop, target, -⟩ := described.handlers handler member
    exact ⟨range.start, range.stop, range.target, start, stop, target⟩

theorem Reachable.step {source target : Nat} (path : body.Reachable source)
    (edge : body.Edge source target) : body.Reachable target := .tail path edge

/-- What falls through leads to the next item. -/
theorem Reachable.next {position : Nat} {item : Item} (path : body.Reachable position)
    (found : body.items[position]? = some item) (falls : FlowGraph.fallsThrough item = true) :
    body.Reachable (position + 1) :=
  path.step (.successor (.next found falls))

/-- What is not executed falls through. -/
theorem fallsThrough_of_not_isCode {item : Item} (mark : item.isCode = false) :
    FlowGraph.fallsThrough item = true := by
  cases item with
  | label | line => rfl
  | instruction | branch => cases mark

/-- From every item on a path some code comes next. -/
theorem Closed.firstCode (closed : body.Closed) {position : Nat} (path : body.Reachable position) :
    ∃ code, body.FirstCode position code ∧ body.Reachable code := by
  have inside := closed.inside path
  induction left : body.items.length - position generalizing position with
  | zero => omega
  | succ left ih =>
    have found : body.items[position]? = some body.items[position] :=
      List.getElem?_eq_getElem inside
    cases isCode : body.items[position].isCode with
    | true =>
      exact ⟨position, ⟨Nat.le_refl _, ⟨_, found, isCode⟩, fun ahead before => by omega⟩, path⟩
    | false =>
      have next := path.next found (fallsThrough_of_not_isCode isCode)
      obtain ⟨code, first, reachable⟩ := ih next (closed.inside next) (by omega)
      exact ⟨code, first.skip (not_isCodeAt found isCode), reachable⟩

/-- Control gets from one item to another other than by falling through. -/
inductive Leap (body : Body) (source target : Nat) : Prop where
  | jump {jump : Branch Label} {label : Label} (found : body.items[source]? = some (.branch jump))
      (member : label ∈ jump.targets) (placed : body.LabelAt label target)
  | exception {handler : Handler} (covered : body.Protects handler source)
      (placed : body.LabelAt handler.target target)

theorem Leap.edge {source target : Nat} (leap : body.Leap source target) :
    body.Edge source target := by
  cases leap with
  | jump found member placed => exact .successor (.jump found member placed)
  | exception covered placed => exact .exception covered placed

/-- What comes after code that does not fall through can only be reached by a leap. -/
theorem Reachable.leap {barrier last : Nat}
    (stops : ∀ item, body.Reachable barrier → body.items[barrier]? = some item →
      FlowGraph.fallsThrough item = false)
    {position : Nat} (path : body.Reachable position) (above : barrier < position)
    (below : position ≤ last) :
    ∃ source target, body.Reachable source ∧ body.Leap source target ∧ barrier < target ∧
      target ≤ last := by
  induction path with
  | refl => cases above
  | @tail source target path edge ih =>
    cases edge with
    | exception covered placed =>
      exact ⟨source, target, path, .exception covered placed, above, below⟩
    | successor next =>
      cases next with
      | jump found member placed =>
        exact ⟨source, target, path, .jump found member placed, above, below⟩
      | next found falls =>
        by_cases here : source = barrier
        · subst here
          rw [stops _ path found] at falls
          cases falls
        · exact ih (by omega) (by omega)

end Body

end ClassWeave
