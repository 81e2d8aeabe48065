import Mathlib
import ClassWeave.Proofs.Code.Emission
import ClassWeave.Proofs.Code.Growth
import ClassWeave.Proofs.Code.Layout
import ClassWeave.Proofs.Code.Spans
import ClassWeave.Proofs.Code.Splitting

/-!
# Assembly is faithful

A body is assembled into what its items are emitted as, one after the other. Splitting the bytes
leads back to these instructions.
-/

namespace ClassWeave

open PoolM (Yields YieldsEach)

namespace Assembly

/-- What is found out on the way from a body to its code. -/
structure Trace where
  typing : Typing
  parts : List Part
  /-- The pool with all operands in it. -/
  lowered : Pool
  layout : Layout
  jumps : List Nat
  exceptions : List (List ExceptionEntry × List Nat)
  /-- The pool with all classes of handlers in it, too. -/
  covered : Pool
  drafts : List VariableDraft

namespace Trace

variable (trace : Trace)

def placed : List Placed := place trace.layout trace.parts

def dead : List Span := deadSpans trace.placed

def sources : List (Nat × FrameSource) :=
  frameSources trace.placed trace.dead (trace.jumps ++ trace.exceptions.flatMap Prod.snd)

/-- The stack slots that are asked for. Dead code throws what is on the stack. -/
def stackSlots : Nat :=
  if trace.dead.isEmpty then trace.typing.maxStack else max trace.typing.maxStack 1

/-- The local slots that are asked for. -/
def localSlots (method : MethodContext) : Nat :=
  trace.drafts.foldl (fun most draft => max most draft.slotsNeeded)
    (max trace.typing.maxLocals (method.descriptor.parameterSlots (!method.isStatic)))

/-- The debugging tables, and the stack map if there is one, are made from what is laid out. -/
inductive Tabulates (body : Body) (after : Pool) : List Attribute → Prop where
  | intro {lines plain typed maps : List Attribute} {first second third fourth : Pool}
      (linesFound : Yields (tableUnlessEmpty PoolM.lineNumberTable
        (lineEntries trace.layout trace.placed)) trace.covered lines first)
      (drafted : YieldsEach (variableDraft trace.layout) body.localVariables first trace.drafts
        second)
      (plainFound : Yields (tableUnlessEmpty (PoolM.variableTable .localVariableTable)
        ((trace.drafts.partition VariableDraft.inTypeTable).2.map VariableDraft.entry)) second plain
        third)
      (typedFound : Yields (tableUnlessEmpty (PoolM.variableTable .localVariableTypeTable)
        ((trace.drafts.partition VariableDraft.inTypeTable).1.map VariableDraft.entry)) third typed
        fourth)
      (mapped : maps = [] ∧ fourth = after ∨ ∃ context map, maps = [map] ∧
        Yields (stackMap context trace.typing trace.layout trace.sources) fourth map after) :
      Tabulates body after (lines ++ plain ++ typed ++ maps)

/-- Each step of assembly goes well, and together they lead to the code. -/
structure Explains (body : Body) (context : AssemblyContext) (before : Pool)
    (code : CodeAttribute) (after : Pool) : Prop where
  typed : body.inferFrames context.method context.hierarchy = .ok trace.typing
  lowering : YieldsEach (fun (item, position) => part trace.typing item position)
    body.items.zipIdx before trace.parts trace.lowered
  laid : Layout.ofPieces trace.typing.isReachable (trace.parts.map Part.piece) = .ok trace.layout
  short : trace.layout.length ≤ 65535
  jumps : jumpOffsets trace.layout trace.placed = .ok trace.jumps
  exceptions : YieldsEach (exceptionEntries trace.layout trace.dead) body.handlers
    trace.lowered trace.exceptions trace.covered
  maxStack : code.maxStack = UInt16.ofNat trace.stackSlots
  maxLocals : code.maxLocals = UInt16.ofNat (trace.localSlots context.method)
  table : code.exceptions = trace.exceptions.flatMap Prod.fst
  bytes : codeBytes trace.layout trace.dead trace.placed = .ok code.code
  attributes : trace.Tabulates body after code.attributes
  mapped : context.emitStackMap = true → trace.sources ≠ [] →
    ∃ map ∈ code.attributes, ∃ earlier, trace.covered.Grown earlier ∧
      Yields (stackMap context trace.typing trace.layout trace.sources) earlier map after

end Trace

theorem explained {body : Body} {context : AssemblyContext} {before after : Pool}
    {code : CodeAttribute} (done : Yields (body.assemble context) before code after) :
    ∃ trace : Trace, trace.Explains body context before code after := by
  obtain ⟨typing, _, ran, done⟩ := PoolM.yields_bind.mp done
  obtain ⟨inferred, rfl⟩ := PoolM.yields_lift.mp ran
  obtain ⟨parts, lowered, lowering, done⟩ := PoolM.yields_bind.mp done
  obtain ⟨layout, _, ran, done⟩ := PoolM.yields_bind.mp done
  obtain ⟨laid, rfl⟩ := PoolM.yields_lift.mp ran
  simp only at done
  split at done
  · obtain ⟨_, _, thrown, -⟩ := PoolM.yields_bind.mp done
    exact (PoolM.not_yields_throw thrown).elim
  · rename_i short
    obtain ⟨jumps, _, ran, done⟩ := PoolM.yields_bind.mp done
    obtain ⟨jumpsFound, rfl⟩ := PoolM.yields_lift.mp ran
    obtain ⟨exceptions, covered, exceptionsFound, done⟩ := PoolM.yields_bind.mp done
    obtain ⟨bytes, _, ran, done⟩ := PoolM.yields_bind.mp done
    obtain ⟨bytesFound, rfl⟩ := PoolM.yields_lift.mp ran
    obtain ⟨lines, first, linesFound, done⟩ := PoolM.yields_bind.mp done
    obtain ⟨drafts, second, drafted, done⟩ := PoolM.yields_bind.mp done
    obtain ⟨plain, third, plainFound, done⟩ := PoolM.yields_bind.mp done
    obtain ⟨typed, fourth, typedFound, done⟩ := PoolM.yields_bind.mp done
    refine ⟨⟨typing, parts, lowered, layout, jumps, exceptions, covered, drafts⟩, ?_⟩
    have lowering := PoolM.yields_mapM.mp lowering
    have exceptionsFound := PoolM.yields_mapM.mp exceptionsFound
    have drafted := PoolM.yields_mapM.mp drafted
    split at done
    · obtain ⟨maps, _, mapsFound, done⟩ := PoolM.yields_bind.mp done
      obtain ⟨rfl, rfl⟩ := PoolM.yields_pure.mp done
      obtain ⟨map, mapFound, rfl⟩ := PoolM.yields_map.mp mapsFound
      have grown := ((lineTable_interning _).grows.yields linesFound).trans
        ((drafted.forall₂ (variableDraft_grows _)).1.trans
          (((variableTable_interning _ _).grows.yields plainFound).trans
            ((variableTable_interning _ _).grows.yields typedFound)))
      exact ⟨inferred, lowering, laid, Nat.le_of_not_lt short, jumpsFound, exceptionsFound, rfl, rfl,
        rfl, bytesFound, .intro linesFound drafted plainFound typedFound
          (.inr ⟨context, map, rfl, mapFound⟩),
        fun _ _ => ⟨map, List.mem_append_right _ (List.mem_singleton_self map), fourth, grown,
          mapFound⟩⟩
    · rename_i unwanted
      obtain ⟨maps, _, none, done⟩ := PoolM.yields_bind.mp done
      obtain ⟨rfl, rfl⟩ := PoolM.yields_pure.mp none
      obtain ⟨rfl, rfl⟩ := PoolM.yields_pure.mp done
      refine ⟨inferred, lowering, laid, Nat.le_of_not_lt short, jumpsFound, exceptionsFound, rfl, rfl,
        rfl, bytesFound, .intro linesFound drafted plainFound typedFound (.inl ⟨rfl, rfl⟩),
        fun wanted needed => ?_⟩
      rw [wanted, Bool.true_and, Bool.not_eq_true', Bool.not_eq_false, List.isEmpty_iff] at unwanted
      exact (needed unwanted).elim

/-- Up to the classes of handlers, assembly adds to the pool at most. -/
theorem Trace.Explains.covered_grown {trace : Trace} {body : Body} {context : AssemblyContext}
    {before after : Pool} {code : CodeAttribute}
    (explains : trace.Explains body context before code after) : before.Grown trace.covered :=
  (explains.lowering.forall₂ fun _ => (part_interning _ _ _).grows).1.trans
    (explains.exceptions.forall₂ (exceptionEntries_grows _ _)).1

/-- The last of a run of dead bytes is a throw. -/
theorem partBytes_deadLast {layout : Layout} {part : Placed} {stops : List Nat}
    (dead : part.isDead = true) (last : part.offset + 1 ∈ stops) :
    partBytes layout (Std.HashSet.ofList stops) part = .ok [0xBF] := by
  rw [partBytes, if_pos dead, if_pos (Std.HashSet.contains_ofList.trans (by simpa using last))]

/-- A live instruction is lowered into the pool; nothing else changes it. -/
theorem part_cases {typing : Typing} {item : Item} {position : Nat} {before after : Pool}
    {made : Part} (done : Yields (part typing item position) before made after) :
    (∃ step lowered, item = .instruction step ∧ typing.isReachable position = true ∧
      made = ⟨item, true, some lowered⟩ ∧
      Yields (step.mapM PoolM.operand) before lowered after) ∨
    (made = ⟨item, typing.isReachable position, none⟩ ∧ before = after ∧
      ∀ step, item = .instruction step → typing.isReachable position = false) := by
  unfold part at done
  simp only at done
  split at done
  · rename_i step
    split at done
    · rename_i live
      obtain ⟨lowered, _, lowering, same⟩ := PoolM.yields_bind.mp done
      obtain ⟨rfl, rfl⟩ := PoolM.yields_pure.mp same
      rw [live]
      exact .inl ⟨step, lowered, rfl, rfl, rfl, lowering⟩
    · rename_i dead
      obtain ⟨rfl, rfl⟩ := PoolM.yields_pure.mp done
      exact .inr ⟨rfl, rfl, fun _ _ => by simpa using dead⟩
  · rename_i other
    obtain ⟨rfl, rfl⟩ := PoolM.yields_pure.mp done
    exact .inr ⟨rfl, rfl, fun step same => (other step same).elim⟩

section

variable {typing : Typing} {items : List Item} {parts : List Part} {before after : Pool}
  (lowering : YieldsEach (fun (item, position) => part typing item position) items.zipIdx before
    parts after)

include lowering

theorem part_of_item {position : Nat} {item : Item} (found : items[position]? = some item) :
    ∃ made earlier later, parts[position]? = some made ∧
      Yields (part typing item position) earlier made later := by
  have indexed : items.zipIdx[position]? = some (item, position) := by
    rw [List.getElem?_zipIdx, found]
    simp
  exact lowering.getElem? indexed

theorem item_of_part {position : Nat} {made : Part} (found : parts[position]? = some made) :
    items[position]? = some made.item ∧ made.isLive = typing.isReachable position := by
  have inside : position < items.length := by
    rw [← List.length_zipIdx, lowering.length_eq]
    exact (List.getElem?_eq_some_iff.mp found).1
  have itemFound : items[position]? = some items[position] := List.getElem?_eq_getElem inside
  obtain ⟨same, _, _, sameFound, done⟩ := part_of_item lowering itemFound
  cases Option.some.inj (found.symm.trans sameFound)
  rcases part_cases done with ⟨_, _, _, live, rfl, _⟩ | ⟨rfl, _, _⟩
  · exact ⟨itemFound, live.symm⟩
  · exact ⟨itemFound, rfl⟩

end

theorem Part.piece_label {made : Part} {mark : Label} (isLabel : made.piece = .label mark) :
    made.item = .label mark := by
  unfold piece at isLabel
  split at isLabel
  · rename_i same
    cases isLabel
    exact same
  · cases isLabel
  · split at isLabel <;> cases isLabel
  · split at isLabel <;> cases isLabel

namespace Trace

variable {trace : Trace} {body : Body} {context : AssemblyContext} {before after : Pool}
  {code : CodeAttribute}

/-- The offset of the item at a position. -/
def start (trace : Trace) (position : Nat) : Nat := trace.layout.start position

def isWide (trace : Trace) (position : Nat) : Bool :=
  trace.layout.widened.toList.getD position false

/-- The offsets of code that cannot be reached, in order. -/
def deadOffsets (trace : Trace) : List Nat :=
  (trace.placed.filter fun part => part.isDead).map Placed.offset

namespace Explains

variable (explains : trace.Explains body context before code after)

include explains

theorem length_parts : trace.parts.length = body.items.length := by
  rw [← explains.lowering.length_eq, List.length_zipIdx]

theorem settled : Layout.Settled (trace.parts.map Part.piece) trace.layout :=
  Layout.ofPieces_settled explains.laid

theorem size_widened : trace.layout.widened.toList.length = trace.parts.length := by
  simpa using explains.settled.length

theorem size_offsets : trace.layout.offsets.size = trace.parts.length := by
  rw [explains.settled.places.size, List.length_zip, explains.size_widened, List.length_map,
    Nat.min_self]

theorem start_zero : trace.start 0 = 0 := explains.settled.places.first

theorem start_length : trace.start body.items.length = trace.layout.length :=
  Placement.start_size (by rw [explains.size_offsets, explains.length_parts])

/-- The parts follow each other at distances of their widths. -/
theorem start_next {position : Nat} {made : Part} (found : trace.parts[position]? = some made) :
    trace.start (position + 1) =
      trace.start position + made.piece.widthAt (trace.start position) (trace.isWide position) := by
  refine explains.settled.places.next ?_
  obtain ⟨inside, rfl⟩ := List.getElem?_eq_some_iff.mp found
  have within := explains.size_widened ▸ inside
  rw [List.getElem?_zip_eq_some, List.getElem?_map, found, isWide, List.getD_eq_getElem?_getD,
    List.getElem?_eq_getElem within]
  exact ⟨rfl, rfl⟩

theorem part_at {position : Nat} {item : Item} (found : body.items[position]? = some item) :
    ∃ made earlier later, trace.parts[position]? = some made ∧
      Yields (part trace.typing item position) earlier made later :=
  part_of_item explains.lowering found

theorem item_at {position : Nat} {made : Part} (found : trace.parts[position]? = some made) :
    body.items[position]? = some made.item ∧
      made.isLive = trace.typing.isReachable position :=
  item_of_part explains.lowering found

theorem placed_eq : trace.placed = trace.parts.zipIdx.map fun (made, position) =>
    ⟨made, position, trace.start position, trace.isWide position⟩ := by
  have sizes := explains.size_offsets
  have widths := explains.size_widened
  refine List.ext_getElem (by simp_all [placed, place]) fun position inside _ => ?_
  have within : position < trace.parts.length := by simp_all [placed, place]
  have wide : position < trace.layout.widened.size := by simp_all
  simp [placed, place, start, isWide, Placement.start, sizes, within, wide]

theorem mem_placed {part : Placed} : part ∈ trace.placed ↔ ∃ position made,
    trace.parts[position]? = some made ∧
      part = ⟨made, position, trace.start position, trace.isWide position⟩ := by
  rw [explains.placed_eq]
  simp only [List.mem_map, Prod.exists, List.mk_mem_zipIdx_iff_getElem?]
  constructor
  · rintro ⟨made, position, found, rfl⟩
    exact ⟨position, made, found, rfl⟩
  · rintro ⟨position, made, found, rfl⟩
    exact ⟨made, position, found, rfl⟩

theorem isReachable_iff (position : Nat) :
    trace.typing.isReachable position = true ↔ body.Reachable position :=
  (Body.inferFrames_closed explains.typed).2 position

theorem closed : body.Closed := (Body.inferFrames_closed explains.typed).1

/-- Items that are executed take some bytes, the others none. -/
theorem laidOut : body.Laid trace.start where
  mark {position item} found mark := by
    obtain ⟨made, _, _, madeFound, done⟩ := explains.part_at found
    rw [explains.start_next madeFound]
    rcases part_cases done with ⟨step, _, rfl, -⟩ | ⟨rfl, -⟩
    · cases mark
    · cases item with
      | label | line => rfl
      | instruction | branch => cases mark
  code {position item} found isCode := by
    obtain ⟨made, _, _, madeFound, done⟩ := explains.part_at found
    rw [explains.start_next madeFound]
    refine Nat.lt_add_of_pos_right ?_
    rcases part_cases done with ⟨step, lowered, rfl, -, rfl, -⟩ | ⟨rfl, -, dead⟩
    · exact lowered.width_pos
    · cases item with
      | label | line => cases isCode
      | instruction => exact Nat.one_pos
      | branch jump =>
        simp only [Part.piece]
        split
        · exact jump.widthAt_pos _ _
        · exact Nat.one_pos

theorem mem_deadOffsets (offset : Nat) : offset ∈ trace.deadOffsets ↔
    ∃ position, body.IsCodeAt position ∧ ¬ body.Reachable position ∧
      trace.start position = offset := by
  simp only [deadOffsets, List.mem_map, List.mem_filter, explains.mem_placed]
  constructor
  · rintro ⟨_, ⟨⟨position, made, found, rfl⟩, isDead⟩, rfl⟩
    obtain ⟨itemFound, live⟩ := explains.item_at found
    simp only [Part.isDead, live, Bool.and_eq_true, Bool.not_eq_true'] at isDead
    refine ⟨position, ⟨_, itemFound, isDead.1⟩, fun path => ?_, rfl⟩
    rw [(explains.isReachable_iff position).mpr path] at isDead
    cases isDead.2
  · rintro ⟨position, ⟨item, itemFound, isCode⟩, unreachable, rfl⟩
    obtain ⟨made, _, _, found, -⟩ := explains.part_at itemFound
    obtain ⟨sameItem, live⟩ := explains.item_at found
    cases Option.some.inj (itemFound.symm.trans sameItem)
    refine ⟨_, ⟨⟨position, made, found, rfl⟩, ?_⟩, rfl⟩
    have dead : trace.typing.isReachable position = false := by
      rwa [← Bool.not_eq_true, explains.isReachable_iff]
    simp [Part.isDead, isCode, live, dead]

theorem deadOffsets_ascending : trace.deadOffsets.Pairwise (· < ·) := by
  rw [deadOffsets, List.pairwise_map, List.pairwise_filter, List.pairwise_iff_getElem]
  intro first second firstInside secondInside ordered firstDead _
  have size : trace.placed.length = trace.parts.length := by simp [explains.placed_eq]
  have within : first < trace.parts.length := size ▸ firstInside
  have found : trace.parts[first]? = some trace.parts[first] := List.getElem?_eq_getElem within
  simp only [explains.placed_eq, List.getElem_map, List.getElem_zipIdx, Nat.zero_add, Part.isDead,
    Bool.and_eq_true] at firstDead ⊢
  refine explains.laidOut.lt_of_code ⟨_, (explains.item_at found).1, firstDead.1⟩ ordered ?_
  rw [← explains.length_parts, ← size]
  exact secondInside.le

/-- The dead spans are the longest runs of code that cannot be reached. -/
theorem dead_runs : Runs trace.deadOffsets trace.dead := by
  have runs := foldl_addDeadByte_runs explains.deadOffsets_ascending
  rwa [deadOffsets, List.foldl_map] at runs

theorem offsetOf_label {label : Label} {position : Nat} (placed : body.LabelAt label position) :
    offsetOf trace.layout label = .ok (trace.start position) := by
  obtain ⟨made, _, _, found, done⟩ := explains.part_at placed
  have isLabel : made.piece = .label label := by
    rcases part_cases done with ⟨_, _, same, -⟩ | ⟨rfl, -⟩
    · cases same
    · rfl
  have wide : trace.layout.widened.toList[position]? = some (trace.isWide position) := by
    have inside := (List.getElem?_eq_some_iff.mp found).1
    rw [isWide, List.getD_eq_getElem?_getD, List.getElem?_eq_getElem (explains.size_widened ▸ inside)]
    rfl
  have known : trace.layout.labels[label]? = some (trace.start position) := by
    have pair : ((trace.parts.map Part.piece).zip trace.layout.widened.toList)[position]? =
        some (.label label, trace.isWide position) := by
      rw [List.getElem?_zip_eq_some, List.getElem?_map, found, wide]
      exact ⟨congrArg some isLabel, rfl⟩
    refine explains.settled.places.label pair fun other _ twin => ?_
    rw [List.getElem?_zip_eq_some, List.getElem?_map] at twin
    obtain ⟨twinMade, twinFound, twinLabel⟩ := Option.map_eq_some_iff.mp twin.1
    have twinPlaced := (explains.item_at twinFound).1
    rw [Part.piece_label twinLabel] at twinPlaced
    exact explains.closed.labels twinPlaced placed
  rw [offsetOf, known]

/-- A label that is jumped to leads to where the code that follows it starts. -/
theorem leadsTo {position : Nat} {jump : Branch Label} (live : body.Reachable position)
    (found : body.items[position]? = some (.branch jump)) {label : Label}
    (member : label ∈ jump.targets) {offset : Nat}
    (placed : offsetOf trace.layout label = .ok offset) :
    body.LeadsTo trace.start label offset := by
  obtain ⟨target, labelAt⟩ := explains.closed.jumps live found member
  have path := live.step (.successor (.jump found member labelAt))
  obtain ⟨code, first, -⟩ := explains.closed.firstCode path
  have same := (explains.offsetOf_label labelAt).symm.trans placed
  cases same
  exact ⟨target, code, labelAt, first, explains.laidOut.starts_firstCode first⟩

/-- Only jumps with one target are widened. -/
theorem jumpTarget_of_isWide {position : Nat} {jump : Branch Label} {made : Part}
    (found : trace.parts[position]? = some made) (isJump : made.piece = .branch jump)
    (wide : trace.isWide position = true) : ∃ target, jump.jumpTarget? = some target := by
  rw [isWide, List.getD_eq_getElem?_getD] at wide
  obtain ⟨other, target, otherFound, hasTarget⟩ := explains.settled.widensJumps position (by
    cases found : trace.layout.widened.toList[position]? with
    | none =>
      rw [found] at wide
      cases wide
    | some widened =>
      rw [found] at wide
      exact congrArg some wide)
  rw [List.getElem?_map, found, Option.map_some, isJump] at otherFound
  cases otherFound
  exact ⟨target, hasTarget⟩

/-- Dead code ends where its run does. -/
theorem stops_iff {position : Nat} (isCode : body.IsCodeAt position)
    (dead : ¬ body.Reachable position)
    (next : trace.start (position + 1) = trace.start position + 1) :
    (Std.HashSet.ofList (trace.dead.map Span.stop)).contains (trace.start position + 1) = true ↔
      body.EndsRun position := by
  rw [Std.HashSet.contains_ofList, List.contains_iff_mem, explains.dead_runs.stop_iff,
    explains.laidOut.endsRun_iff explains.closed explains.mem_deadOffsets isCode next]
  exact and_iff_right ((explains.mem_deadOffsets _).mpr ⟨position, isCode, dead, rfl⟩)

/-- A byte stands for an instruction that cannot be reached. -/
theorem emits_dead {position : Nat} {item : Item} {pool : Pool}
    (found : body.items[position]? = some item) (isCode : item.isCode = true)
    (dead : ¬ body.Reachable position)
    (next : trace.start (position + 1) = trace.start position + 1) :
    ∃ emitted, body.Emits trace.start trace.isWide position item pool emitted pool ∧
      Bytecode.Written (trace.start position) emitted
        [if (Std.HashSet.ofList (trace.dead.map Span.stop)).contains (trace.start position + 1)
          then 0xBF else 0x00] := by
  have stops := explains.stops_iff ⟨item, found, isCode⟩ dead next
  split
  · rename_i last
    exact ⟨_, .deadLast isCode dead (stops.mp last) next, .single (.branch rfl)⟩
  · rename_i inside
    exact ⟨_, .deadInside isCode dead (fun ends => inside (stops.mpr ends)) next,
      .single (.straight (.plain .nop))⟩

/-- A branch that can be reached is written as it stands, or as a long jump. -/
theorem emits_branch {position : Nat} {jump : Branch Label} {placed : Branch Nat} {pool : Pool}
    {made : Part} {bytes : Bytes} (found : body.items[position]? = some (.branch jump))
    (madeFound : trace.parts[position]? = some made) (isJump : made.piece = .branch jump)
    (live : body.Reachable position) (resolved : jump.mapM (offsetOf trace.layout) = .ok placed)
    (written : placed.encodeAt (trace.start position) (trace.isWide position) = .ok bytes) :
    trace.start (position + 1) = trace.start position + bytes.length ∧
    ∃ emitted, body.Emits trace.start trace.isWide position (.branch jump) pool emitted pool ∧
      Bytecode.Written (trace.start position) emitted bytes := by
  have retargets := (Branch.Retargets.of_mapM resolved).imp_of_mem fun label member offset =>
    explains.leadsTo live found member
  have next := explains.start_next madeFound
  rw [isJump, Piece.widthAt, ← retargets.widthAt] at next
  refine ⟨by rw [next, Bytecode.length_encodeAt written], ?_⟩
  cases wide : trace.isWide position with
  | false =>
    rw [wide] at next written
    exact ⟨_, .branch live wide retargets next, .single (.branch written)⟩
  | true =>
    rw [wide] at next written
    obtain ⟨target, hasTarget⟩ := explains.jumpTarget_of_isWide madeFound isJump wide
    cases retargets with
    | goto leads =>
      cases written
      exact ⟨_, .wideGoto live wide leads next, .single (.longGoto _)⟩
    | jumpIf leads =>
      obtain ⟨skip, skipFound, same⟩ := Outcome.bind_ok.mp written
      cases Outcome.pure_ok.mp same
      refine ⟨_, .wideJumpIf live wide leads next, .cons (.branch skipFound) ?_⟩
      rw [Bytecode.length_encodeShort skipFound]
      exact .single (.longGoto _)
    | tableSwitch | lookupSwitch | ret | athrow => cases hasTarget

/-- The bytes of a part are those of what its item is emitted as. -/
theorem emits {position : Nat} {item : Item} {made : Part} {earlier later : Pool} {bytes : Bytes}
    (found : body.items[position]? = some item) (madeFound : trace.parts[position]? = some made)
    (done : Yields (part trace.typing item position) earlier made later)
    (written : partBytes trace.layout (Std.HashSet.ofList (trace.dead.map Span.stop))
      ⟨made, position, trace.start position, trace.isWide position⟩ = .ok bytes) :
    trace.start (position + 1) = trace.start position + bytes.length ∧
    ∃ emitted, body.Emits trace.start trace.isWide position item earlier emitted later ∧
      Bytecode.Written (trace.start position) emitted bytes := by
  have next := explains.start_next madeFound
  have reachable := explains.isReachable_iff position
  rcases part_cases done with ⟨step, lowered, rfl, live, rfl, lowering⟩ | ⟨rfl, rfl, unlowered⟩
  · cases written
    have width : trace.start (position + 1) = trace.start position + lowered.encode.length := by
      rw [lowered.length_encode]
      exact next
    exact ⟨width, _, .instruction (reachable.mp live) lowering width, .single (.straight lowered)⟩
  · cases isCode : item.isCode with
    | false =>
      cases item with
      | label | line =>
        cases written
        exact ⟨next, [], .mark rfl next, .nil⟩
      | instruction | branch => cases isCode
    | true =>
      cases live : trace.typing.isReachable position with
      | false =>
        have dead : ¬ body.Reachable position := by
          rw [← reachable, live]
          exact Bool.false_ne_true
        have width : trace.start (position + 1) = trace.start position + 1 := by
          rw [next, live]
          cases item with
          | label | line => cases isCode
          | instruction | branch => rfl
        rw [partBytes, if_pos (by simp [Part.isDead, isCode, live])] at written
        cases written
        exact ⟨width, explains.emits_dead found isCode dead width⟩
      | true =>
        rw [live] at madeFound written
        cases item with
        | label | line => cases isCode
        | instruction step =>
          rw [unlowered step rfl] at live
          cases live
        | branch jump =>
          obtain ⟨placed, resolved, encoded⟩ := Outcome.bind_ok.mp written
          exact explains.emits_branch found madeFound rfl (reachable.mp live) resolved
            (Outcome.mapError_ok.mp encoded)

private theorem emitsFrom_suffix {rest : List Item} {position : Nat} {parts : List Part}
    {chunks : List Bytes} {earlier later : Pool}
    (lowering : YieldsEach (fun (item, position) => part trace.typing item position)
      (rest.zipIdx position) earlier parts later)
    (written : List.Forall₂ (fun (made, position) bytes =>
      partBytes trace.layout (Std.HashSet.ofList (trace.dead.map Span.stop))
        ⟨made, position, trace.start position, trace.isWide position⟩ = .ok bytes)
      (parts.zipIdx position) chunks)
    (items : body.items.drop position = rest) (made : trace.parts.drop position = parts) :
    trace.start (position + rest.length) = trace.start position + chunks.flatten.length ∧
    ∃ listing, body.EmitsFrom trace.start trace.isWide position rest earlier listing later ∧
      Bytecode.Written (trace.start position) listing chunks.flatten := by
  induction rest generalizing position parts chunks earlier with
  | nil =>
    cases lowering
    cases written
    exact ⟨rfl, [], .nil, .nil⟩
  | cons item rest ih =>
    rw [List.zipIdx_cons] at lowering
    cases lowering with
    | cons first lowering =>
      rw [List.zipIdx_cons] at written
      cases written with
      | cons bytes written =>
        obtain ⟨found, items⟩ := Body.drop_cons items
        obtain ⟨madeFound, made⟩ := Body.drop_cons made
        obtain ⟨next, emitted, emits, firstWritten⟩ :=
          explains.emits found madeFound first bytes
        obtain ⟨stop, listing, emitsFrom, laterWritten⟩ := ih lowering written items made
        rw [next] at laterWritten
        refine ⟨?_, _, .cons emits emitsFrom, firstWritten.append laterWritten⟩
        have shifted : position + (rest.length + 1) = position + 1 + rest.length := by omega
        rw [List.length_cons, shifted, stop, next, List.flatten_cons, List.length_append,
          Nat.add_assoc]

/-- The code is what the items are emitted as, one after the other. -/
theorem emitsFrom : trace.start body.items.length = code.code.length ∧
    ∃ listing, body.EmitsFrom trace.start trace.isWide 0 body.items before listing trace.lowered ∧
      Bytecode.Written 0 listing code.code := by
  obtain ⟨chunks, written, same⟩ := Outcome.map_ok.mp explains.bytes
  rw [Outcome.mapM_ok, explains.placed_eq, List.forall₂_map_left_iff] at written
  obtain ⟨stop, listing, emitted, bytes⟩ := explains.emitsFrom_suffix explains.lowering written
    List.drop_zero List.drop_zero
  rw [explains.start_zero] at stop bytes
  rw [same] at stop bytes
  rw [Nat.zero_add, Nat.zero_add] at stop
  exact ⟨stop, listing, emitted, bytes⟩

end Explains

end Trace

end Assembly

namespace Body

variable {body : Body} {starts : Nat → Nat} {widened : Nat → Bool}

/-- No table has become one that a class file cannot hold. -/
theorem Emits.keysFit {position : Nat} {item : Item} {before after : Pool}
    {emitted : List (Nat × RawInstruction)}
    (emits : body.Emits starts widened position item before emitted after)
    (fits : ∀ jump, item = .branch jump → jump.KeysFit) {entry : Nat × RawInstruction}
    (member : entry ∈ emitted) : Bytecode.KeysFit entry.2 := by
  cases emits with
  | mark => cases member
  | instruction | deadInside | deadLast | wideGoto =>
    cases List.mem_singleton.mp member
    trivial
  | branch _ _ retargets =>
    cases List.mem_singleton.mp member
    have fits := fits _ rfl
    cases retargets with
    | tableSwitch _ table =>
      simpa only [Bytecode.KeysFit, Branch.KeysFit, table.length_eq] using fits
    | _ => trivial
  | wideJumpIf => rcases List.mem_pair.mp member with rfl | rfl <;> trivial

end Body

/-- Splitting the code leads back to what the items are emitted as. -/
theorem Assembly.Trace.Explains.splits {trace : Assembly.Trace} {body : Body}
    {context : AssemblyContext} {before after : Pool} {code : CodeAttribute}
    (explains : trace.Explains body context before code after)
    (tables : ∀ jump, .branch jump ∈ body.items → jump.KeysFit) :
    trace.start body.items.length = code.code.length ∧ ∃ listing,
      body.EmitsFrom trace.start trace.isWide 0 body.items before listing trace.lowered ∧
      Bytecode.split code.code = .ok listing := by
  obtain ⟨stop, listing, emitsFrom, written⟩ := explains.emitsFrom
  refine ⟨stop, listing, emitsFrom, Bytecode.split_written written ?_ ?_ ?_⟩
  · rw [← stop, explains.start_length]
    exact explains.short
  · intro entry member
    obtain ⟨_, item, _, _, _, found, emits, here⟩ := emitsFrom.origin List.drop_zero member
    refine emits.keysFit (fun jump isJump => tables jump ?_) here
    exact List.mem_of_getElem? (isJump ▸ found)
  · intro entry member target isTarget
    obtain ⟨_, _, _, _, _, found, emits, here⟩ := emitsFrom.origin List.drop_zero member
    rw [← stop]
    exact (emits.targets explains.closed explains.laidOut found here isTarget).inside
      explains.laidOut

/-- Splitting the code of a body leads back to what the items of the body are emitted as. -/
theorem Body.assemble_splits {body : Body} {context : AssemblyContext} {before after : Pool}
    {code : CodeAttribute} (tables : ∀ jump, .branch jump ∈ body.items → jump.FitsTable)
    (done : Yields (body.assemble context) before code after) :
    ∃ starts widened listing lowered, starts 0 = 0 ∧ starts body.items.length = code.code.length ∧
      body.EmitsFrom starts widened 0 body.items before listing lowered ∧
      Bytecode.split code.code = .ok listing := by
  obtain ⟨trace, explains⟩ := Assembly.explained done
  obtain ⟨stop, listing, emitsFrom, split⟩ :=
    explains.splits fun jump member => Branch.FitsTable.keysFit (tables jump member)
  exact ⟨trace.start, trace.isWide, listing, trace.lowered, explains.start_zero, stop, emitsFrom,
    split⟩

open Assembly

/-- Looks its parameter up in a table, and starts over as long as a constant is zero. The jump back
has to be wide if the table is long, and no path leads to the instructions behind the table. -/
def choosing (targets : List Label) : Body where
  items := [.label ⟨0⟩, .instruction (.load .int 0), .branch (.tableSwitch ⟨1⟩ 0 targets),
    .instruction (.plain .nop), .branch (.goto ⟨0⟩), .label ⟨1⟩,
    .instruction (.loadConstant (.int 1000)), .branch (.jumpIf (.zero .eq) ⟨0⟩),
    .branch (.ret .void)]
  handlers := []
  localVariables := []
  nextLabel := ⟨2⟩

def choice : Body := choosing (List.replicate 8192 ⟨1⟩)

def choiceContext : AssemblyContext :=
  ⟨⟨.object, .clinit, ⟨[.base .int], none⟩, true⟩, .flat, false⟩

def choiceTable : Bytes :=
  [0xAA, 0, 0, 0, 0, 0x80, 0x11, 0, 0, 0, 0, 0, 0, 0x1F, 0xFF]
    ++ (List.replicate 8192 [0, 0, 0x80, 0x11]).flatten

def choiceCode : CodeAttribute where
  maxStack := 1
  maxLocals := 1
  code := 0x1A :: choiceTable
    ++ [0x00, 0xBF, 0x12, 1, 0x9A, 0, 8, 0xC8, 0xFF, 0xFF, 0x7F, 0xE9, 0xB1]
  exceptions := []
  attributes := []

section Choosing

variable (targets : List Label)

def choosingPositions : Std.HashMap Label Nat :=
  (Std.HashMap.emptyWithCapacity.insert ⟨0⟩ 0).insert ⟨1⟩ 5

def choosingGraph : FlowGraph := ⟨(choosing targets).items.toArray, choosingPositions, []⟩

def choosingEntry : VFrame := ⟨[.integer], []⟩

def choosingKey : VFrame := ⟨[.integer], [.integer]⟩

/-- What has been found when it comes to the table. -/
def choosingBefore : Typing where
  frames := #[some choosingEntry, some choosingEntry, some choosingKey, none, none, none, none,
    none, none]
  maxStack := 1
  maxLocals := 1

def choosingBehind : Typing where
  frames := #[some choosingEntry, some choosingEntry, some choosingKey, none, none,
    some choosingEntry, none, none, none]
  maxStack := 1
  maxLocals := 1

def choosingTyping : Typing where
  frames := #[some choosingEntry, some choosingEntry, some choosingKey, none, none,
    some choosingEntry, some choosingEntry, some choosingKey, some choosingEntry]
  maxStack := 1
  maxLocals := 1

private theorem choosing_jumps (count : Nat) :
    (choosingGraph (.replicate count ⟨1⟩)).effect choiceContext.method 2
        (.branch (.tableSwitch ⟨1⟩ 0 (.replicate count ⟨1⟩))) choosingKey =
      .ok ⟨choosingEntry, .replicate (count + 1) (5, choosingEntry)⟩ := by
  have placed : FlowGraph.positionIn choosingPositions ⟨1⟩ = .ok 5 := by
    cbv
  refine Outcome.bind_ok.mpr ⟨choosingEntry, rfl, Outcome.bind_ok.mpr ⟨_,
    Outcome.bind_ok.mpr ⟨_, Outcome.mapM_replicate placed (count + 1), rfl⟩, ?_⟩⟩
  rw [List.map_replicate]
  exact congrArg (fun edges => Except.ok (FlowGraph.Effect.mk choosingEntry edges))
    (List.append_nil _)

private theorem choosing_step (count : Nat) :
    FrameSearch.step .flat (choosingGraph (.replicate count ⟨1⟩)) choiceContext.method 2
      ⟨choosingBefore, []⟩ = .ok ⟨choosingBehind, [5]⟩ := by
  have depth (count : Nat) : (List.replicate count 0).foldl max 1 = 1 := by
    induction count with
    | zero => rfl
    | succ count ih => exact ih
  have measured : FrameSearch.measure ⟨choosingBefore, []⟩ choosingKey
      ⟨choosingEntry, .replicate (count + 1) (5, choosingEntry)⟩ = ⟨choosingBefore, []⟩ := by
    change FrameSearch.mk ⟨choosingBefore.frames, ((List.replicate (count + 1)
      (5, choosingEntry)).map fun edge => edge.2.depth).foldl max 1, 1⟩ [] = _
    rw [List.map_replicate]
    exact congrArg (fun most => FrameSearch.mk ⟨choosingBefore.frames, most, 1⟩ [])
      (depth (count + 1))
  refine Outcome.bind_ok.mpr ⟨_, choosing_jumps count, ?_⟩
  rw [measured]
  exact Outcome.foldlM_replicate (by cbv) (by cbv) count

private theorem choosing_begins (fuel : Nat) :
    FrameSearch.run .flat (choosingGraph targets) choiceContext.method (fuel + 1 + 1)
        ⟨⟨#[some choosingEntry, none, none, none, none, none, none, none, none], 0, 1⟩, [0]⟩ =
      FrameSearch.run .flat (choosingGraph targets) choiceContext.method fuel
        ⟨choosingBefore, [2]⟩ := by
  cbv

private theorem choosing_ends (fuel : Nat) :
    FrameSearch.run .flat (choosingGraph targets) choiceContext.method (fuel + 1 + 1 + 1 + 1 + 1)
      ⟨choosingBehind, [5]⟩ = .ok ⟨choosingTyping, []⟩ := by
  cbv

private theorem choosing_typed (count : Nat) :
    (choosing (.replicate count ⟨1⟩)).inferFrames choiceContext.method .flat =
      .ok choosingTyping := by
  have built : FlowGraph.ofBody (choosing (.replicate count ⟨1⟩)) =
      .ok (choosingGraph (.replicate count ⟨1⟩)) := by
    cbv
  have ran : FrameSearch.run .flat (choosingGraph (.replicate count ⟨1⟩)) choiceContext.method
      (999999999999999992 + 1 + 1 + 1 + 1 + 1 + 1 + 1 + 1)
      ⟨⟨#[some choosingEntry, none, none, none, none, none, none, none, none], 0, 1⟩, [0]⟩ =
        .ok ⟨choosingTyping, []⟩ := by
    rw [choosing_begins, FrameSearch.run_next (choosing_step count), choosing_ends]
  exact Outcome.bind_ok.mpr ⟨_, built, Outcome.bind_ok.mpr ⟨_, rfl,
    Outcome.bind_ok.mpr ⟨_, ran, rfl⟩⟩⟩

def choosingParts : List Part :=
  [⟨.label ⟨0⟩, true, none⟩, ⟨.instruction (.load .int 0), true, some (.load .int 0)⟩,
    ⟨.branch (.tableSwitch ⟨1⟩ 0 targets), true, none⟩, ⟨.instruction (.plain .nop), false, none⟩,
    ⟨.branch (.goto ⟨0⟩), false, none⟩, ⟨.label ⟨1⟩, true, none⟩,
    ⟨.instruction (.loadConstant (.int 1000)), true, some (.loadConstant 1)⟩,
    ⟨.branch (.jumpIf (.zero .eq) ⟨0⟩), true, none⟩, ⟨.branch (.ret .void), true, none⟩]

/-- Only the constant needs a place in the pool. -/
private theorem choosing_lowered : ∃ after,
    YieldsEach (fun (item, position) => part choosingTyping item position)
      (choosing targets).items.zipIdx .empty (choosingParts targets) after := by
  have fresh : Pool.empty.firstSlot[Constant.integer 1000]? = none := by
    simp [Pool.empty]
  obtain ⟨after, added, -⟩ := PoolM.yields_intern_new fresh (by decide)
  have constant : Yields (part choosingTyping (.instruction (.loadConstant (.int 1000))) 6) .empty
      ⟨.instruction (.loadConstant (.int 1000)), true, some (.loadConstant 1)⟩ after :=
    PoolM.yields_bind.mpr ⟨.loadConstant 1, after,
      PoolM.yields_bind.mpr ⟨1, after, added, rfl⟩, rfl⟩
  exact ⟨after, .cons rfl (.cons rfl (.cons rfl (.cons rfl (.cons rfl (.cons rfl
    (.cons constant (.cons rfl (.cons rfl .nil))))))))⟩

end Choosing

section Choice

def choiceLabels : Std.HashMap Label Nat :=
  (Std.HashMap.emptyWithCapacity.insert ⟨0⟩ 0).insert ⟨1⟩ 32786

def choiceWidened (wide : Bool) : List Bool :=
  [false, false, false, false, false, false, false, wide, false]

/-- Where the parts are, with the jump back wide or not. -/
def choicePlacement (wide : Bool) : Placement :=
  let stop := if wide then 32796 else 32791
  ⟨#[0, 0, 1, 32784, 32785, 32786, 32786, 32788, stop], choiceLabels, stop + 1⟩

def choiceLayout : Layout := ⟨choicePlacement true, (choiceWidened true).toArray⟩

variable {targets : List Label}

private theorem choice_ofPieces (long : targets.length = 8192) (wide : Bool) :
    Placement.ofPieces ((choosingParts targets).map Part.piece) (choiceWidened wide) =
      choicePlacement wide := by
  -- the table takes up what keeps the jump from being short
  have width : (Branch.tableSwitch (⟨1⟩ : Label) 0 targets).widthAt 1 false = 32783 := by
    rw [Branch.widthAt, long]
    rfl
  have tabled : Placement.add ⟨#[0, 0], Std.HashMap.emptyWithCapacity.insert ⟨0⟩ 0, 1⟩
      (.branch (.tableSwitch ⟨1⟩ 0 targets)) false =
        ⟨#[0, 0, 1], Std.HashMap.emptyWithCapacity.insert ⟨0⟩ 0, 32784⟩ := by
    rw [Placement.add, width]
    rfl
  have rest : Placement.ofPieces ((choosingParts targets).map Part.piece) (choiceWidened wide) =
      [(Piece.fixed 1, false), (.fixed 1, false), (.label ⟨1⟩, false), (.fixed 2, false),
        (.branch (.jumpIf (.zero .eq) ⟨0⟩), wide), (.branch (.ret .void), false)].foldl
        (fun placement piece => placement.add piece.1 piece.2)
        (Placement.add ⟨#[0, 0], Std.HashMap.emptyWithCapacity.insert ⟨0⟩ 0, 1⟩
          (.branch (.tableSwitch ⟨1⟩ 0 targets)) false) := by
    cbv
  rw [rest, tabled]
  cases wide <;> rfl

private theorem choice_widen (wide : Bool) : (choicePlacement wide).widen choosingTyping.isReachable
    ((choosingParts targets).map Part.piece) (choiceWidened wide) = .ok (choiceWidened true) := by
  cases wide <;> cbv

private theorem choice_laid (long : targets.length = 8192) :
    Layout.ofPieces choosingTyping.isReachable ((choosingParts targets).map Part.piece) =
      .ok choiceLayout := by
  change Layout.settle _ _ (8 + 1 + 1) (choiceWidened false) = _
  rw [Layout.settle, choice_ofPieces long, choice_widen]
  refine Outcome.bind_ok.mpr ⟨_, rfl, ?_⟩
  rw [if_neg (by decide), Layout.settle, choice_ofPieces long, choice_widen]
  exact Outcome.bind_ok.mpr ⟨_, rfl, if_pos rfl⟩

def choicePlaced (targets : List Label) : List Placed :=
  [⟨⟨.label ⟨0⟩, true, none⟩, 0, 0, false⟩,
    ⟨⟨.instruction (.load .int 0), true, some (.load .int 0)⟩, 1, 0, false⟩,
    ⟨⟨.branch (.tableSwitch ⟨1⟩ 0 targets), true, none⟩, 2, 1, false⟩,
    ⟨⟨.instruction (.plain .nop), false, none⟩, 3, 32784, false⟩,
    ⟨⟨.branch (.goto ⟨0⟩), false, none⟩, 4, 32785, false⟩,
    ⟨⟨.label ⟨1⟩, true, none⟩, 5, 32786, false⟩,
    ⟨⟨.instruction (.loadConstant (.int 1000)), true, some (.loadConstant 1)⟩, 6, 32786, false⟩,
    ⟨⟨.branch (.jumpIf (.zero .eq) ⟨0⟩), true, none⟩, 7, 32788, true⟩,
    ⟨⟨.branch (.ret .void), true, none⟩, 8, 32796, false⟩]

private theorem choice_placed :
    place choiceLayout (choosingParts targets) = choicePlaced targets := by
  cbv

private theorem choice_resolved : offsetOf choiceLayout ⟨1⟩ = .ok 32786 := by
  cbv

private theorem choice_jumps (count : Nat) :
    ∃ jumps, jumpOffsets choiceLayout (choicePlaced (.replicate count ⟨1⟩)) = .ok jumps := by
  have turns : jumpOffsetsFrom choiceLayout
      ⟨⟨.branch (.tableSwitch ⟨1⟩ 0 (.replicate count ⟨1⟩)), true, none⟩, 2, 1, false⟩ =
        .ok (.replicate (count + 1) 32786) := by
    refine Outcome.bind_ok.mpr ⟨_, Outcome.mapM_replicate choice_resolved (count + 1), ?_⟩
    exact congrArg Except.ok (List.append_nil _)
  refine ⟨.replicate (count + 1) 32786 ++ [0, 32796], ?_⟩
  rw [choicePlaced, jumpOffsets]
  simp only [List.mapM_cons, List.mapM_nil, turns]
  cbv

private theorem choice_dead : deadSpans (choicePlaced targets) = [⟨32784, 32786⟩] := by
  cbv

private theorem choice_bytes :
    codeBytes choiceLayout (deadSpans (choicePlaced (.replicate 8192 ⟨1⟩)))
      (choicePlaced (.replicate 8192 ⟨1⟩)) = .ok choiceCode.code := by
  have inside : partBytes choiceLayout (Std.HashSet.ofList [32786])
      ⟨⟨.instruction (.plain .nop), false, none⟩, 3, 32784, false⟩ = .ok [0x00] := by
    simp [partBytes, Part.isDead, Item.isCode]
  have last : partBytes choiceLayout (Std.HashSet.ofList [32786])
      ⟨⟨.branch (.goto ⟨0⟩), false, none⟩, 4, 32785, false⟩ = .ok [0xBF] :=
    partBytes_deadLast rfl (by decide)
  have resolved : (Branch.tableSwitch ⟨1⟩ 0 (.replicate 8192 ⟨1⟩)).mapM (offsetOf choiceLayout) =
      .ok (.tableSwitch 32786 0 (.replicate 8192 32786)) :=
    Outcome.bind_ok.mpr ⟨32786, choice_resolved,
      Outcome.bind_ok.mpr ⟨_, Outcome.mapM_replicate choice_resolved 8192, rfl⟩⟩
  have encoded : (Branch.tableSwitch 32786 0 (.replicate 8192 32786)).encodeAt 1 false =
      .ok choiceTable := by
    rw [Branch.encodeAt, List.length_replicate, List.flatMap_replicate]
    rfl
  have turns : partBytes choiceLayout (Std.HashSet.ofList [32786])
      ⟨⟨.branch (.tableSwitch ⟨1⟩ 0 (.replicate 8192 ⟨1⟩)), true, none⟩, 2, 1, false⟩ =
        .ok choiceTable :=
    Outcome.bind_ok.mpr ⟨_, resolved, Outcome.mapError_ok.mpr encoded⟩
  rw [choice_dead, choicePlaced, codeBytes, choiceCode]
  simp only [List.map_cons, List.map_nil, List.mapM_cons, inside, last, turns]
  generalize choiceTable = table
  cbv

/-- Nothing else depends on what is in the table. -/
private theorem choosing_assembled {jumps : List Nat} {code : Bytes}
    (typed : (choosing targets).inferFrames choiceContext.method .flat = .ok choosingTyping)
    (long : targets.length = 8192)
    (jumpsFound : jumpOffsets choiceLayout (choicePlaced targets) = .ok jumps)
    (bytes : codeBytes choiceLayout (deadSpans (choicePlaced targets)) (choicePlaced targets) =
      .ok code) : ∃ after,
    Yields ((choosing targets).assemble choiceContext) .empty ⟨1, 1, code, [], []⟩ after := by
  obtain ⟨after, lowered⟩ := choosing_lowered targets
  refine ⟨after, ?_⟩
  refine PoolM.yields_bind.mpr ⟨choosingTyping, .empty, PoolM.yields_lift.mpr ⟨typed, rfl⟩, ?_⟩
  refine PoolM.yields_bind.mpr ⟨_, after, PoolM.yields_mapM.mpr lowered, ?_⟩
  refine PoolM.yields_bind.mpr
    ⟨choiceLayout, after, PoolM.yields_lift.mpr ⟨choice_laid long, rfl⟩, ?_⟩
  rw [if_neg (by decide), choice_placed]
  refine PoolM.yields_bind.mpr ⟨jumps, after, PoolM.yields_lift.mpr ⟨jumpsFound, rfl⟩, ?_⟩
  refine PoolM.yields_bind.mpr ⟨[], after, by cbv, ?_⟩
  refine PoolM.yields_bind.mpr ⟨code, after, PoolM.yields_lift.mpr ⟨bytes, rfl⟩, ?_⟩
  exact PoolM.yields_bind.mpr ⟨[], after, by cbv, by cbv⟩

theorem choice_assembled : ∃ after,
    Yields (choice.assemble choiceContext) .empty choiceCode after := by
  obtain ⟨jumps, jumpsFound⟩ := choice_jumps 8192
  exact choosing_assembled (choosing_typed 8192) List.length_replicate jumpsFound choice_bytes

private theorem choosing_tables (long : targets.length = 8192) :
    ∀ jump, .branch jump ∈ (choosing targets).items → jump.FitsTable := by
  simp [choosing, Branch.FitsTable, long]

end Choice

theorem choice_splits : (∀ jump, .branch jump ∈ choice.items → jump.FitsTable) ∧ ∃ after,
    Yields (choice.assemble choiceContext) .empty choiceCode after ∧
    ∃ starts widened listing lowered, starts 0 = 0 ∧
      starts choice.items.length = choiceCode.code.length ∧
      choice.EmitsFrom starts widened 0 choice.items .empty listing lowered ∧
      Bytecode.split choiceCode.code = .ok listing := by
  have tables : ∀ jump, .branch jump ∈ choice.items → jump.FitsTable :=
    choosing_tables List.length_replicate
  obtain ⟨after, done⟩ := choice_assembled
  exact ⟨tables, after, done, choice.assemble_splits tables done⟩

end ClassWeave
