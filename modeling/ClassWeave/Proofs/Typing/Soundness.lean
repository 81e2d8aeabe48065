import Mathlib
import ClassWeave.Proofs.Typing.Reachability

/-!
# Inferred frames are sound

A typing is sound if its frames hold on every path through the body: on entry, after every item and
in every handler. Inference only finds sound typings, and it leaves no room out.
-/

namespace ClassWeave

namespace Typing

/-- Control can get to a position with this frame, as the one there is above it. -/
abbrev Admits (typing : Typing) (hierarchy : Hierarchy) (position : Nat) (frame : VFrame) : Prop :=
  FrameSearch.Holds hierarchy.FrameBelow typing position frame

/-- An item can take the frame before it, and the frames of all that may come next take its effect
into account. -/
structure Flows (typing : Typing) (hierarchy : Hierarchy) (body : Body) (method : MethodContext)
    (position : Nat) (before : VFrame) (item : Item) (after : VFrame) : Prop where
  found : body.items[position]? = some item
  done : FlowGraph.after method position before item = .ok after
  placed {jump : Branch Label} {label : Label} : item = .branch jump → label ∈ jump.targets →
    ∃ target, body.LabelAt label target
  next {target : Nat} : body.Successor position target → typing.Admits hierarchy target after
  thrownBefore {handler : Handler} {target : Nat} : body.Protects handler position →
    body.LabelAt handler.target target →
      typing.Admits hierarchy target ⟨before.locals, [handler.caught]⟩
  thrownAfter {handler : Handler} {target : Nat} : body.Protects handler position →
    body.LabelAt handler.target target →
      typing.Admits hierarchy target ⟨after.locals, [handler.caught]⟩
  stack : before.depth ≤ typing.maxStack ∧ after.depth ≤ typing.maxStack
  locals : before.locals.length ≤ typing.maxLocals ∧ after.locals.length ≤ typing.maxLocals

/-- The frames hold on every path through the body, and only there. -/
structure Sound (typing : Typing) (hierarchy : Hierarchy) (body : Body) (method : MethodContext) :
    Prop where
  size : typing.frames.size = body.items.length
  labels {label : Label} {first second : Nat} :
    body.LabelAt label first → body.LabelAt label second → first = second
  handlers : ∀ handler ∈ body.handlers, ∃ start stop target, body.LabelAt handler.start start ∧
    body.LabelAt handler.stop stop ∧ body.LabelAt handler.target target
  entry : typing.Admits hierarchy 0 (VFrame.initial method)
  parameters : (VFrame.initial method).locals.length ≤ typing.maxLocals
  flows {position : Nat} {before : VFrame} : typing.frameAt position = some before →
    ∃ item after, typing.Flows hierarchy body method position before item after
  reachable (position : Nat) : typing.isReachable position = true ↔ body.Reachable position

end Typing

namespace FrameSearch

variable {hierarchy : Hierarchy} {below : VFrame → VFrame → Prop} {graph : FlowGraph}
  {body : Body} {method : MethodContext} {typing : Typing}

/-- A settled item hands its frames on to all that may come next. -/
theorem Settled.flows (described : graph.Describes body) {position : Nat} {before : VFrame}
    {item : Item} {effect : FlowGraph.Effect}
    (settled : Settled hierarchy.FrameBelow graph method typing position before item effect)
    (room : before.locals.length ≤ typing.maxLocals) :
    typing.Flows hierarchy body method position before item effect.after := by
  have found := settled.found
  rw [described.getElem?] at found
  obtain ⟨after, afterFound, later⟩ := Outcome.bind_ok.mp settled.done
  obtain ⟨targets, targetsFound, same⟩ := Outcome.bind_ok.mp later
  have admits {target : Nat} {passed : VFrame}
      (passes : body.Passes position before effect.after target passed) :
      typing.Admits hierarchy target passed :=
    settled.held (target, passed) ((described.mem_edges found settled.done target passed).mpr passes)
  cases Outcome.pure_ok.mp same
  refine ⟨found, Outcome.mapError_ok.mp afterFound, ?_, fun next => admits (.successor next),
    fun covered placed => admits (.thrownBefore covered placed),
    fun covered placed => admits (.thrownAfter covered placed), ?_, room, settled.locals⟩
  · rintro jump label rfl member
    exact described.jump_placed targetsFound member
  · exact ⟨(Nat.le_max_left _ _).trans settled.depths, (Nat.le_max_right _ _).trans settled.depths⟩

end FrameSearch

/-- In a hierarchy that is an order, the frames that inference finds are sound. -/
theorem Body.inferFrames_sound {body : Body} {method : MethodContext} {hierarchy : Hierarchy}
    {typing : Typing} (lawful : hierarchy.Lawful)
    (found : body.inferFrames method hierarchy = .ok typing) :
    typing.Sound hierarchy body method := by
  obtain ⟨graph, described, invariant⟩ :=
    FrameSearch.inferFrames_invariant (FrameSearch.ascends_of_lawful lawful) found
  refine ⟨invariant.size, described.label_unique, fun handler member => ?_, invariant.entry,
    invariant.parameters, fun {position before} beforeFound => ?_, invariant.isReachable described⟩
  · obtain ⟨range, start, stop, target, -⟩ := described.handlers handler member
    exact ⟨range.start, range.stop, range.target, start, stop, target⟩
  · obtain ⟨item, effect, settled⟩ := invariant.settled beforeFound List.not_mem_nil
    exact ⟨item, effect.after, settled.flows described (invariant.roomy position before beforeFound)⟩

/-- Counts its parameter down to zero, and passes on whatever is thrown meanwhile. -/
def countdown : Body where
  items := [.label ⟨0⟩, .instruction (.load .int 0), .branch (.jumpIf (.zero .eq) ⟨1⟩),
    .instruction (.increment 0 (-1)), .branch (.goto ⟨0⟩), .label ⟨1⟩, .branch (.ret .void),
    .label ⟨2⟩, .branch .athrow]
  handlers := [⟨⟨0⟩, ⟨1⟩, ⟨2⟩, none⟩]
  localVariables := []
  nextLabel := ⟨3⟩

def countdownMethod : MethodContext := ⟨.object, .clinit, ⟨[.base .int], none⟩, true⟩

def countdownTyping : Typing where
  frames :=
    let counting : VFrame := ⟨[.integer], []⟩
    let testing : VFrame := ⟨[.integer], [.integer]⟩
    let caught : VFrame := ⟨[.integer], [VType.ofClass .throwable]⟩
    #[some counting, some counting, some testing, some counting, some counting, some counting,
      some counting, some caught, some caught]
  maxStack := 1
  maxLocals := 1

theorem countdown_typed :
    countdown.inferFrames countdownMethod .flat = .ok countdownTyping := by
  cbv

theorem countdownTyping_sound : Hierarchy.flat.Lawful ∧
    countdown.inferFrames countdownMethod .flat = .ok countdownTyping ∧
    countdownTyping.Sound .flat countdown countdownMethod :=
  ⟨Hierarchy.flat_lawful, countdown_typed,
    Body.inferFrames_sound Hierarchy.flat_lawful countdown_typed⟩

end ClassWeave
