import Std.Data.HashMap
import Std.Data.HashSet
import ClassWeave.ClassFile.Attribute
import ClassWeave.Code.Layout
import ClassWeave.Code.Offsets
import ClassWeave.Typing.Inference
import ClassWeave.Typing.Stored

/-!
# From bodies to bytecode

Turns a body into the code of a method. Code that cannot be reached has no frames, so each of its
instructions becomes one byte that does nothing, and the last one of a run throws. Exception ranges
leave such runs out.
-/

namespace ClassWeave

/-- What the code of a method depends on besides its body. -/
structure AssemblyContext where
  method : MethodContext
  hierarchy : Hierarchy
  /-- Is a stack map wanted? -/
  emitStackMap : Bool

namespace Assembly

/-- An item on its way into bytecode. -/
structure Part where
  item : Item
  isLive : Bool
  /-- The instruction to write, if it is a live one that goes straight on. -/
  lowered : Option PoolInstruction

/-- Moves the operands of a live instruction into the pool. -/
def part (typing : Typing) (item : Item) (position : Nat) : PoolM Part :=
  let isLive := typing.isReachable position
  match item with
  | .instruction step =>
    if isLive then do return ⟨item, isLive, some (← step.mapM PoolM.operand)⟩
    else return ⟨item, isLive, none⟩
  | _ => return ⟨item, isLive, none⟩

namespace Part

def isDead (part : Part) : Bool := part.item.isCode && !part.isLive

/-- A dead instruction is as wide as what takes its place. -/
def piece (part : Part) : Piece :=
  match part.item with
  | .label mark => .label mark
  | .line _ => .fixed 0
  | .branch jump => if part.isLive then .branch jump else .fixed 1
  | .instruction _ =>
    match part.lowered with
    | some instruction => .fixed instruction.width
    | none => .fixed 1

end Part

/-- A part with its place in the bytecode. -/
structure Placed extends Part where
  position : Nat
  offset : Nat
  widened : Bool

def place (layout : Layout) (parts : List Part) : List Placed :=
  (parts.zipIdx.zip (layout.offsets.toList.zip layout.widened.toList)).map
    fun ((part, position), (offset, widened)) => ⟨part, position, offset, widened⟩

def offsetOf (layout : Layout) (label : Label) : Except Fault Nat :=
  match layout.labels[label]? with
  | some offset => .ok offset
  | none => .error (.malformed (.undefinedLabel label))

/-- A range of offsets, its end excluded. -/
structure Span where
  start : Nat
  stop : Nat
  deriving DecidableEq, Repr

/-- Adds the byte of a dead instruction to reversed spans, making the last one longer if it can. -/
def addDeadByte (spans : List Span) (offset : Nat) : List Span :=
  match spans with
  | ⟨start, stop⟩ :: earlier =>
    if stop = offset then ⟨start, offset + 1⟩ :: earlier else ⟨offset, offset + 1⟩ :: spans
  | [] => [⟨offset, offset + 1⟩]

/-- The longest runs of dead code. -/
def deadSpans (placed : List Placed) : List Span :=
  ((placed.filter fun part => part.isDead).foldl
    (fun spans part => addDeadByte spans part.offset) []).reverse

/-- Goes on splitting `span` around dead spans, after the reversed pieces in `seen`. -/
def liveSpansOnto (seen : List Span) (span : Span) : List Span → List Span
  | [] => if span.start < span.stop then span :: seen else seen
  | dead :: rest =>
    if dead.stop ≤ span.start ∨ span.stop ≤ dead.start then liveSpansOnto seen span rest
    else
      let seen := if span.start < dead.start then ⟨span.start, dead.start⟩ :: seen else seen
      liveSpansOnto seen ⟨max span.start dead.stop, span.stop⟩ rest

/-- What is left of a span without dead code. -/
def liveSpans (span : Span) (dead : List Span) : List Span := (liveSpansOnto [] span dead).reverse

/-- The exception entries of a handler, and the offset of the handler if there are any. -/
def exceptionEntries (layout : Layout) (dead : List Span) (handler : Handler) :
    PoolM (List ExceptionEntry × List Nat) := do
  let start ← offsetOf layout handler.start
  let stop ← offsetOf layout handler.stop
  let target ← offsetOf layout handler.target
  let catchType ← match handler.catchType with
    | none => pure 0
    | some name => PoolM.binaryName name
  let spans := liveSpans ⟨start, stop⟩ dead
  let entries := spans.map fun span =>
    ⟨UInt16.ofNat span.start, UInt16.ofNat span.stop, UInt16.ofNat target, catchType⟩
  return (entries, if spans.isEmpty then [] else [target])

/-- The offsets that control can jump to from a part. -/
def jumpOffsetsFrom (layout : Layout) (part : Placed) : Except Fault (List Nat) :=
  match part.item with
  | .branch jump =>
    if part.isLive then do
      let targets ← jump.targets.mapM (offsetOf layout)
      return targets ++ if part.widened && jump.fallsThrough then [part.offset + 8] else []
    else .ok []
  | _ => .ok []

/-- The offsets that control can jump to. -/
def jumpOffsets (layout : Layout) (placed : List Placed) : Except Fault (List Nat) :=
  List.flatten <$> placed.mapM (jumpOffsetsFrom layout)

/-- The bytes of a part. `deadStops` are the ends of the runs of dead code. -/
def partBytes (layout : Layout) (deadStops : Std.HashSet Nat) (part : Placed) :
    Except Fault Bytes :=
  if part.isDead then .ok [if deadStops.contains (part.offset + 1) then 0xBF else 0x00]
  else
    match part.item with
    | .branch jump => do
      let jump ← jump.mapM (offsetOf layout)
      (jump.encodeAt part.offset part.widened).mapError fun _ => .io .invalidData
    | _ =>
      match part.lowered with
      | some instruction => .ok instruction.encode
      | none => .ok []

/-- The bytes of all parts, in order. -/
def codeBytes (layout : Layout) (dead : List Span) (placed : List Placed) : Except Fault Bytes :=
  let deadStops : Std.HashSet Nat := Std.HashSet.ofList (dead.map Span.stop)
  List.flatten <$> placed.mapM (partBytes layout deadStops)

/-- Line numbers at the end of the code belong to no instruction. -/
def lineEntries (layout : Layout) (placed : List Placed) : List LineEntry :=
  placed.filterMap fun part =>
    match part.item with
    | .line number =>
      if part.offset < layout.length then some ⟨UInt16.ofNat part.offset, number⟩ else none
    | _ => none

/-- A variable entry, whether it is of the type table, and the number of slots it needs. -/
structure VariableDraft where
  entry : VariableEntry
  inTypeTable : Bool
  slotsNeeded : Nat

/-- The descriptor of a variable, or its signature, starts with its type. -/
def variableWidth (descriptor : String) : Nat :=
  match descriptor.toList with
  | 'J' :: _ | 'D' :: _ => 2
  | _ => 1

def variableDraft (layout : Layout) (range : VariableRange) : PoolM VariableDraft := do
  let start ← offsetOf layout range.start
  let stop ← offsetOf layout range.stop
  if stop < start then throw (.malformed (.backwardsVariableRange start stop))
  let descriptor ← PoolM.lookup fun table => table.utf8 range.descriptorIndex
  return ⟨⟨UInt16.ofNat start, UInt16.ofNat (stop - start), range.nameIndex,
    range.descriptorIndex, range.slot⟩, range.inTypeTable,
    range.slot.toNat + variableWidth descriptor⟩

/-- Where a stack map needs an entry: the start of dead code, or the instruction at a position. -/
inductive FrameSource where
  | dead
  | item (position : Nat)

/-- The places that need an entry, by ascending offset. Offsets where no instruction starts need
none. -/
def frameSources (placed : List Placed) (dead : List Span) (offsets : List Nat) :
    List (Nat × FrameSource) :=
  let positionAt : Std.HashMap Nat Nat :=
    (placed.filter fun part => part.item.isCode).foldl
      (fun table part => table.insertIfNew part.offset part.position) ∅
  let deadStarts : Std.HashSet Nat := Std.HashSet.ofList (dead.map Span.start)
  (Offsets.sorted (dead.map Span.start ++ offsets)).filterMap fun offset =>
    if deadStarts.contains offset then some (offset, .dead)
    else (positionAt[offset]?).map fun position => (offset, .item position)

/-- The distance that an entry of a stack map records. -/
def deltaAfter (previous : Option Nat) (offset : Nat) : UInt16 :=
  match previous with
  | none => UInt16.ofNat offset
  | some previous => UInt16.ofNat (offset - previous - 1)

/-- The entries after the reversed ones in `seen`, each given as a change to the frame before it. -/
def stackMapEntries (typing : Typing) (itemOffset : Nat → UInt16) (deadFrame : StoredFrame)
    (seen : List StackMapEntry) (previous : Option Nat) (previousFrame : StoredFrame) :
    List (Nat × FrameSource) → PoolM (List StackMapEntry)
  | [] => return seen.reverse
  | (offset, source) :: rest => do
    let frame ← match source with
      | .dead => pure (some deadFrame)
      | .item position =>
        match typing.frameAt position with
        | some frame => some <$> frame.stored itemOffset
        | none => pure none
    match frame with
    | some frame =>
      let entry := frame.entryAfter previousFrame (deltaAfter previous offset)
      stackMapEntries typing itemOffset deadFrame (entry :: seen) (some offset) frame rest
    | none =>
      stackMapEntries typing itemOffset deadFrame seen previous previousFrame rest

/-- The stack map with entries at the given places. -/
def stackMap (context : AssemblyContext) (typing : Typing) (layout : Layout)
    (sources : List (Nat × FrameSource)) : PoolM Attribute := do
  let itemOffset (position : Nat) : UInt16 := UInt16.ofNat (layout.offsets.getD position 0)
  let initial ← (VFrame.initial context.method).stored itemOffset
  let thrown ← PoolM.storedType itemOffset (VType.ofClass .throwable)
  let entries ← stackMapEntries typing itemOffset ⟨[], [thrown]⟩ [] none initial sources
  PoolM.attributeOf .stackMapTable (encodeStackMap entries)

/-- A table as an attribute, unless it is empty. -/
def tableUnlessEmpty {α : Type} (table : List α → PoolM Attribute) (entries : List α) :
    PoolM (List Attribute) :=
  match entries with
  | [] => return []
  | entries => do return [← table entries]

end Assembly

open Assembly in
/-- The code that a body stands for. The constants that it needs are added to the pool. -/
def Body.assemble (body : Body) (context : AssemblyContext) : PoolM CodeAttribute := do
  let typing ← body.inferFrames context.method context.hierarchy
  let parts ← body.items.zipIdx.mapM fun (item, position) => part typing item position
  let layout ← Layout.ofPieces typing.isReachable (parts.map Part.piece)
  if 65535 < layout.length then throw (.codeTooLong layout.length)
  let placed := place layout parts
  let dead := deadSpans placed
  let jumps ← jumpOffsets layout placed
  let exceptions ← body.handlers.mapM (exceptionEntries layout dead)
  let code ← codeBytes layout dead placed
  let lines ← tableUnlessEmpty PoolM.lineNumberTable (lineEntries layout placed)
  let drafts ← body.localVariables.mapM (variableDraft layout)
  let (typed, plain) := drafts.partition VariableDraft.inTypeTable
  let localVariables ← tableUnlessEmpty (PoolM.variableTable .localVariableTable)
    (plain.map VariableDraft.entry)
  let variableTypes ← tableUnlessEmpty (PoolM.variableTable .localVariableTypeTable)
    (typed.map VariableDraft.entry)
  let sources := frameSources placed dead (jumps ++ exceptions.flatMap Prod.snd)
  let stackMap ← if context.emitStackMap && !sources.isEmpty then
      List.singleton <$> stackMap context typing layout sources
    else pure []
  let maxStack := if dead.isEmpty then typing.maxStack else max typing.maxStack 1
  let maxLocals := drafts.foldl (fun most draft => max most draft.slotsNeeded)
    (max typing.maxLocals (context.method.descriptor.parameterSlots (!context.method.isStatic)))
  return ⟨UInt16.ofNat maxStack, UInt16.ofNat maxLocals, code,
    exceptions.flatMap Prod.fst, lines ++ localVariables ++ variableTypes ++ stackMap⟩

end ClassWeave
