import Std.Data.HashMap
import ClassWeave.Code.Body
import ClassWeave.Typing.Merge
import ClassWeave.Typing.Step

/-!
# Inferring frames

Finds a frame for every item that can be reached. Starting from the entry of the method, the frame
after an item is merged into the frames of the items that may come next, until nothing changes.
-/

namespace ClassWeave

/-- The frames of a body by position, none where no path leads, and the most slots that they need.
-/
structure Typing where
  frames : Array (Option VFrame)
  maxStack : Nat
  maxLocals : Nat

def Typing.frameAt (typing : Typing) (position : Nat) : Option VFrame :=
  (typing.frames[position]?).join

def Typing.isReachable (typing : Typing) (position : Nat) : Bool :=
  (typing.frameAt position).isSome

/-- A protected range with positions for labels, and the type of the exceptions it catches. -/
structure Coverage where
  start : Nat
  stop : Nat
  target : Nat
  caught : VType

/-- Where control can go in a body, with positions for labels. -/
structure FlowGraph where
  items : Array Item
  positions : Std.HashMap Label Nat
  coverage : List Coverage

namespace FlowGraph

/-- Notes where labels are placed. -/
def addLabels (positions : Std.HashMap Label Nat) :
    List (Label × Nat) → Except Fault (Std.HashMap Label Nat)
  | [] => .ok positions
  | (label, position) :: rest =>
    if positions.contains label then .error (.malformed (.labelPlacedTwice label))
    else addLabels (positions.insert label position) rest

def positionIn (positions : Std.HashMap Label Nat) (label : Label) : Except Fault Nat :=
  match positions[label]? with
  | some position => .ok position
  | none => .error (.malformed (.undefinedLabel label))

def coverageOf (positions : Std.HashMap Label Nat) (handler : Handler) :
    Except Fault Coverage := do
  let start ← positionIn positions handler.start
  let stop ← positionIn positions handler.stop
  let target ← positionIn positions handler.target
  return ⟨start, stop, target, VType.ofClass (handler.catchType.getD .throwable)⟩

def ofBody (body : Body) : Except Fault FlowGraph := do
  let positions ← addLabels ∅ body.placedLabels
  let coverage ← body.handlers.mapM (coverageOf positions)
  return ⟨body.items.toArray, positions, coverage⟩

variable (graph : FlowGraph)

/-- The handlers of exceptions at a position, in order. -/
def handlersAt (position : Nat) : List Coverage :=
  graph.coverage.filter fun range => range.start ≤ position && position < range.stop

/-- The frame after an item. -/
def after (method : MethodContext) (position : Nat) (frame : VFrame) :
    Item → Except TypeFault VFrame
  | .label _ | .line _ => .ok frame
  | .instruction step => frame.execute method.thisClass position step
  | .branch jump => frame.executeBranch method.descriptor.result jump

/-- Where an item can jump. -/
def jumpsFrom : Item → Except Fault (List Nat)
  | .branch jump => jump.targets.mapM (positionIn graph.positions)
  | _ => .ok []

def fallsThrough : Item → Bool
  | .branch jump => jump.fallsThrough
  | _ => true

/-- The positions that may come next without an exception, jumps first. -/
def successors (position : Nat) (item : Item) : Except Fault (List Nat) := do
  let jumps ← graph.jumpsFrom item
  if fallsThrough item then
    if position + 1 < graph.items.size then return jumps ++ [position + 1]
    else throw (.untypable position .fallsOffEnd)
  else return jumps

/-- The frames that handlers of an item may start from: an exception can come before the item's
effect or after it. -/
def exceptionEdges (position : Nat) (item : Item) (before after : VFrame) :
    List (Nat × VFrame) :=
  if item.isCode then
    (graph.handlersAt position).flatMap fun range =>
      [(range.target, ⟨before.locals, [range.caught]⟩),
        (range.target, ⟨after.locals, [range.caught]⟩)]
  else []

/-- What an item does to the frame before it. -/
structure Effect where
  after : VFrame
  /-- All positions that may come next, each with the frame that it is reached with. -/
  edges : List (Nat × VFrame)

def effect (method : MethodContext) (position : Nat) (item : Item) (before : VFrame) :
    Except Fault Effect := do
  let after ← (after method position before item).mapError (.untypable position)
  let successors ← graph.successors position item
  return ⟨after, successors.map (·, after) ++ graph.exceptionEdges position item before after⟩

end FlowGraph

/-- The state of the search for frames: positions whose frame has changed are pending. -/
structure FrameSearch where
  typing : Typing
  pending : List Nat

namespace FrameSearch

/-- The search before the first step. A body without items has no entry. -/
def start (graph : FlowGraph) (method : MethodContext) : Except Fault FrameSearch :=
  let initial := VFrame.initial method
  if 0 < graph.items.size then
    .ok ⟨⟨(Array.replicate graph.items.size none).setIfInBounds 0 (some initial), 0,
      initial.locals.length⟩, [0]⟩
  else .error (.untypable 0 .fallsOffEnd)

/-- Takes note of a frame that a position can be reached with. -/
def reach (hierarchy : Hierarchy) (search : FrameSearch) (target : Nat) (incoming : VFrame) :
    Except Fault FrameSearch := do
  let ⟨⟨frames, maxStack, maxLocals⟩, pending⟩ := search
  match (frames[target]?).join with
  | none =>
    return ⟨⟨frames.setIfInBounds target (some incoming), maxStack, maxLocals⟩, target :: pending⟩
  | some existing =>
    let merged ← hierarchy.mergeFrames target existing incoming
    if merged = existing then return ⟨⟨frames, maxStack, maxLocals⟩, pending⟩
    else
      return ⟨⟨frames.setIfInBounds target (some merged), maxStack, maxLocals⟩, target :: pending⟩

/-- Makes room for what an item needs. -/
def measure (search : FrameSearch) (before : VFrame) (effect : FlowGraph.Effect) : FrameSearch :=
  let ⟨⟨frames, maxStack, maxLocals⟩, pending⟩ := search
  let depths := effect.edges.map fun (_, frame) => frame.depth
  ⟨⟨frames, depths.foldl max (max maxStack (max before.depth effect.after.depth)),
    max maxLocals effect.after.locals.length⟩, pending⟩

/-- Follows the edges out of one item. -/
def step (hierarchy : Hierarchy) (graph : FlowGraph) (method : MethodContext) (position : Nat)
    (search : FrameSearch) : Except Fault FrameSearch :=
  match (search.typing.frames[position]?).join, graph.items[position]? with
  | some before, some item => do
    let effect ← graph.effect method position item before
    effect.edges.foldlM (fun search (target, incoming) => search.reach hierarchy target incoming)
      (search.measure before effect)
  | _, _ => .ok search

/-- Goes on for at most `fuel` steps, the position that was noted last coming first. -/
def run (hierarchy : Hierarchy) (graph : FlowGraph) (method : MethodContext) :
    (fuel : Nat) → FrameSearch → Except Fault FrameSearch
  | 0, search => .ok search
  | fuel + 1, search =>
    match search with
    | ⟨typing, []⟩ => .ok ⟨typing, []⟩
    | ⟨typing, position :: pending⟩ => do
      run hierarchy graph method fuel (← step hierarchy graph method position ⟨typing, pending⟩)

/-- More steps than any hierarchy of classes makes necessary. -/
def maxSteps : Nat := 1_000_000_000_000_000_000

end FrameSearch

/-- The frames of a body. That the frames at an item never settle can only be if the hierarchy is
not an order. -/
def Body.inferFrames (body : Body) (method : MethodContext) (hierarchy : Hierarchy) :
    Except Fault Typing := do
  let graph ← FlowGraph.ofBody body
  let search ← FrameSearch.start graph method
  match ← search.run hierarchy graph method FrameSearch.maxSteps with
  | ⟨typing, []⟩ => return typing
  | ⟨_, position :: _⟩ => throw (.incompatibleFrames position .unsettled)

end ClassWeave
