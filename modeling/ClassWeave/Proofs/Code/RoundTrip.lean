import Mathlib.Data.List.Nodup
import ClassWeave.Proofs.Code.DebugTables
import ClassWeave.Proofs.Code.Leaps
import ClassWeave.Proofs.Constant.Known
import ClassWeave.Proofs.Constant.RoundTrip

/-!
# From bytecode to bodies and back

A body that was read from the code of a method, and is assembled without a long jump and without
dead code, is read back from the new code. Offsets and slots may have changed; labels, operands and
the order of lines, handlers and variables have not.
-/

namespace ClassWeave

open PoolM (Grows Yields YieldsEach)

namespace Disassembly

/-- The slot of a class is not the one that stands for all exceptions. -/
theorem catches_of_yields {caught : Option BinaryName} {before after : Pool}
    {index : ConstantIndex} (sound : before.Sound) (aligned : after.table.Aligned)
    (done : Yields (Assembly.catchSlot caught) before index after) :
    Catches after.table index caught := by
  cases caught with
  | none => exact (PoolM.yields_pure.mp done).1.symm
  | some name =>
    have found := PoolM.binaryName_reads sound done
    refine ⟨?_, found⟩
    rintro rfl
    obtain ⟨type, isType, -⟩ := Outcome.bind_ok.mp found
    obtain ⟨constant, isThere, -⟩ := Outcome.bind_ok.mp isType
    rw [ConstantTable.constant, show (0 : ConstantIndex).toNat = 0 from rfl,
      aligned.get?_zero] at isThere
    cases isThere

theorem Catches.stable {newer older : ConstantTable} {index : ConstantIndex}
    {caught : Option BinaryName} (grown : newer.Extends older)
    (catches : Catches older index caught) : Catches newer index caught := by
  cases caught with
  | none => exact catches
  | some name => exact ⟨catches.1, ConstantTable.Stable.binaryName index grown catches.2⟩

end Disassembly

namespace Assembly

open Disassembly

/-- The entry is in charge of what the handler is. -/
structure Reprotects (layout : Layout) (constants : ConstantTable) (handler : Handler)
    (entry : ExceptionEntry) : Prop where
  start : offsetOf layout handler.start = .ok entry.start.toNat
  stop : offsetOf layout handler.stop = .ok entry.stop.toNat
  target : offsetOf layout handler.target = .ok entry.handler.toNat
  catchType : Catches constants entry.catchType handler.catchType

theorem Reprotects.offsets {layout : Layout} {constants : ConstantTable} {handler : Handler}
    {entry : ExceptionEntry} (reprotects : Reprotects layout constants handler entry) :
    List.Forall₂ (fun label offset => offsetOf layout label = .ok offset)
      [handler.start, handler.stop, handler.target] (offsetsOf entry) :=
  .cons reprotects.start (.cons reprotects.stop (.cons reprotects.target .nil))

/-- The code says what the body does, in other offsets and slots. -/
structure Rebuilds (outline : Outline) (layout : Layout) (body : Body) (code : CodeAttribute)
    (constants : ConstantTable) (listing : List (Nat × RawInstruction)) (tables : DebugTables) :
    Prop where
  split : Bytecode.split code.code = .ok listing
  relists : Relists outline layout constants code.code.length listing
  handlers : List.Forall₂ (Reprotects layout constants) body.handlers code.exceptions
  debug : readDebugTables (boundariesOf listing) code.code.length constants code.attributes
    ⟨[], []⟩ = .ok tables
  localVariables : List.Forall₂ (Redrafts layout)
    (body.variablesOf false ++ body.variablesOf true) tables.localVariables.reverse
  lines : ∀ entry step, (entry, step) ∈ listing.zip outline.steps →
    (linesByOffset tables.lines).getD entry.1 [] = step.lines

section Rebuilds

variable {outline : Outline} {layout : Layout} {body : Body} {code : CodeAttribute}
  {constants table : ConstantTable} {listing : List (Nat × RawInstruction)} {tables : DebugTables}

theorem mem_variablesOf {range : VariableRange} :
    range ∈ body.variablesOf false ++ body.variablesOf true ↔ range ∈ body.localVariables := by
  cases kind : range.inTypeTable <;> simp [Body.variablesOf, kind]

namespace Rebuilds

variable (rebuilds : Rebuilds outline layout body code constants listing tables)
  (spells : outline.Spells table body)

include rebuilds spells

/-- What needs a label in the code is what has one in the body. -/
theorem mem_labelled {offset : Nat} : offset ∈ labelled code listing tables ↔
    ∃ label, outline.Marks label ∧ offsetOf layout label = .ok offset := by
  rw [Disassembly.mem_labelled]
  constructor
  · rintro (⟨raw, listed, isEnd⟩ | ⟨entry, listed, isEnd⟩ | ⟨entry, listed, isTarget⟩)
    · obtain ⟨range, member, redrafts⟩ := Outcome.exists_left_of_mem rebuilds.localVariables
        (List.mem_reverse.mpr listed)
      obtain ⟨label, isLabel, leads⟩ := Outcome.exists_left_of_mem redrafts.offsets isEnd
      exact ⟨label, spells.marks (.inr (.inr ⟨range, mem_variablesOf.mp member, isLabel⟩)), leads⟩
    · obtain ⟨handler, member, reprotects⟩ := Outcome.exists_left_of_mem rebuilds.handlers listed
      obtain ⟨label, isLabel, leads⟩ := Outcome.exists_left_of_mem reprotects.offsets isEnd
      exact ⟨label, spells.marks (.inr (.inl ⟨handler, member, isLabel⟩)), leads⟩
    · obtain ⟨step, member, respelt⟩ := Outcome.exists_right_of_mem rebuilds.relists.steps listed
      obtain ⟨jump, isJump, label, isLabel, leads⟩ := respelt.code.exists_label isTarget
      exact ⟨label, (spells.jumps step member jump isJump label isLabel).marks, leads⟩
  · rintro ⟨label, marks, found⟩
    rcases spells.referred label marks with ⟨jump, placed, isTarget⟩ | ⟨handler, member, isEnd⟩ |
      ⟨range, member, isEnd⟩
    · obtain ⟨step, member, isJump⟩ := outline.exists_step (spells.items ▸ placed) rfl
      obtain ⟨entry, listed, respelt⟩ := Outcome.exists_left_of_mem rebuilds.relists.steps member
      obtain ⟨target, here, leads⟩ := respelt.code.exists_offset isJump isTarget
      cases found.symm.trans leads
      exact .inr (.inr ⟨entry, listed, here⟩)
    · obtain ⟨entry, listed, reprotects⟩ := Outcome.exists_right_of_mem rebuilds.handlers member
      obtain ⟨place, here, leads⟩ := Outcome.exists_right_of_mem reprotects.offsets isEnd
      cases found.symm.trans leads
      exact .inr (.inl ⟨entry, listed, here⟩)
    · obtain ⟨raw, listed, redrafts⟩ := Outcome.exists_right_of_mem rebuilds.localVariables
        (mem_variablesOf.mpr member)
      obtain ⟨place, here, leads⟩ := Outcome.exists_right_of_mem redrafts.offsets isEnd
      cases found.symm.trans leads
      exact .inl ⟨raw, List.mem_reverse.mp listed, here⟩

/-- Disassembly finds the labels again. -/
theorem labelsOf_eq : labelsOf code listing tables =
    outline.labelsAt (placesOf code.code.length listing) := by
  refine (labelOffsets_numbered _).unique (rebuilds.relists.numbered spells) fun offset => ?_
  rw [mem_fst_labelOffsets, rebuilds.mem_labelled spells]
  constructor
  · rintro ⟨label, marks, found⟩
    exact List.mem_map_of_mem (f := Prod.fst) ((rebuilds.relists.mem_iff marks).mpr found)
  · intro member
    obtain ⟨⟨_, label⟩, placed, rfl⟩ := List.mem_map.mp member
    exact ⟨label, Outline.marks_of_mem_labelsAt placed, rebuilds.relists.offsetOf_eq placed⟩

theorem getElem?_labelMap {offset : Nat} {label : Label} (marks : outline.Marks label) :
    (labelMap code listing tables)[offset]? = some label ↔ offsetOf layout label = .ok offset := by
  rw [Disassembly.getElem?_labelMap, rebuilds.labelsOf_eq spells, rebuilds.relists.mem_iff marks]

/-- Each step is spelt again. -/
theorem spelt : List.Forall₂
    (Spelt (labelMap code listing tables) (linesByOffset tables.lines) constants)
    listing outline.steps := by
  obtain ⟨length, each⟩ := List.forall₂_iff_zip.mp rebuilds.relists.steps
  refine List.forall₂_iff_zip.mpr ⟨length, fun {entry step} member => ?_⟩
  have respelt := each member
  obtain ⟨listed, isStep⟩ := List.of_mem_zip member
  refine ⟨Option.ext fun label => ?_, rebuilds.lines entry step member, ?_⟩
  · rw [Disassembly.getElem?_labelMap, rebuilds.labelsOf_eq spells, rebuilds.relists.mem_labelsAt]
    constructor
    · rintro (⟨other, found, also, same, isMark⟩ | ⟨same, -⟩)
      · have starts : ((listing.zip outline.steps).map fun pair => pair.1.1).Nodup := by
          rw [← Function.comp_def Prod.fst, ← List.map_map, List.map_fst_zip length.le]
          exact rebuilds.relists.listed.ascending.imp Nat.ne_of_lt
        cases List.inj_on_of_nodup_map starts also member same
        exact isMark
      · exact absurd same (rebuilds.relists.listed.inside entry listed).ne
    · intro isMark
      exact .inl ⟨entry, step, member, rfl, isMark⟩
  · refine respelt.code.itemOf fun jump isJump label isTarget offset found => ?_
    have starts := spells.jumps step isStep jump isJump label isTarget
    exact (rebuilds.getElem?_labelMap spells starts.marks).mpr found

theorem last : (labelMap code listing tables)[code.code.length]? = outline.last := by
  refine Option.ext fun label => ?_
  rw [Disassembly.getElem?_labelMap, rebuilds.labelsOf_eq spells, rebuilds.relists.mem_labelsAt]
  constructor
  · rintro (⟨entry, step, member, same, -⟩ | ⟨-, isLast⟩)
    · have inside := rebuilds.relists.listed.inside entry (List.of_mem_zip member).1
      exact absurd same inside.ne
    · exact isLast
  · intro isLast
    exact .inr ⟨rfl, isLast⟩

theorem linedUp : ∀ entry ∈ code.exceptions,
    LinedUp (boundariesOf listing) code.code.length entry := by
  intro entry listed
  obtain ⟨handler, member, start, stop, target, -⟩ :=
    Outcome.exists_left_of_mem rebuilds.handlers listed
  obtain ⟨starts, marks, targetStarts, nonempty⟩ := spells.handlers handler member
  refine ⟨rebuilds.relists.mem_boundaries starts start, rebuilds.relists.mem_places marks stop, ?_,
    rebuilds.relists.mem_boundaries targetStarts target⟩
  exact ((rebuilds.relists.numbered spells).lt_iff
    ((rebuilds.relists.mem_iff starts.marks).mpr start)
    ((rebuilds.relists.mem_iff marks).mpr stop)).mpr nonempty

theorem handlersOf_ok : code.exceptions.mapM (handlerOf (labelMap code listing tables) constants) =
    .ok body.handlers := by
  refine Outcome.mapM_ok.mpr (List.Forall₂.imp ?_
    ((List.forall₂_and_left _ _).mpr ⟨spells.handlers, rebuilds.handlers⟩).flip)
  rintro entry handler ⟨⟨starts, marks, targetStarts, -⟩, start, stop, target, catchType⟩
  exact handlerOf_ok.mpr ⟨catchType,
    (rebuilds.getElem?_labelMap spells starts.marks).mpr start,
    (rebuilds.getElem?_labelMap spells marks).mpr stop,
    (rebuilds.getElem?_labelMap spells targetStarts.marks).mpr target⟩

theorem variablesOf_ok :
    tables.localVariables.reverse.mapM (variableOf (labelMap code listing tables)) =
      .ok (body.variablesOf false ++ body.variablesOf true) := by
  have ranges : ∀ range ∈ body.variablesOf false ++ body.variablesOf true,
      outline.Marks range.start ∧ outline.Marks range.stop := by
    intro range member
    obtain ⟨starts, marks, -⟩ := spells.ranges range (mem_variablesOf.mp member)
    exact ⟨starts.marks, marks⟩
  refine Outcome.mapM_ok.mpr (List.Forall₂.imp ?_
    ((List.forall₂_and_left _ _).mpr ⟨ranges, rebuilds.localVariables⟩).flip)
  rintro raw range ⟨⟨startMarks, stopMarks⟩, start, stop, content⟩
  exact variableOf_ok.mpr ⟨(rebuilds.getElem?_labelMap spells startMarks).mpr start,
    (rebuilds.getElem?_labelMap spells stopMarks).mpr stop, content⟩

/-- All that disassembly finds out leads to the body again. -/
theorem disassembles : Disassembles code constants listing tables outline
    { body with localVariables := body.variablesOf false ++ body.variablesOf true } where
  split := rebuilds.split
  targets entry listed target isTarget := by
    obtain ⟨step, member, respelt⟩ := Outcome.exists_right_of_mem rebuilds.relists.steps listed
    obtain ⟨jump, isJump, label, isLabel, leads⟩ := respelt.code.exists_label isTarget
    exact rebuilds.relists.mem_boundaries (spells.jumps step member jump isJump label isLabel) leads
  exceptions := rebuilds.linedUp spells
  debug := rebuilds.debug
  spelt := rebuilds.spelt spells
  last := rebuilds.last spells
  items := spells.items
  handlers := rebuilds.handlersOf_ok spells
  localVariables := rebuilds.variablesOf_ok spells
  next := by
    rw [rebuilds.labelsOf_eq spells]
    exact (rebuilds.relists.snd_labelsAt spells).2

end Rebuilds

end Rebuilds

theorem liveSpans_nil {start stop : Nat} (nonempty : start < stop) :
    liveSpans ⟨start, stop⟩ [] = [⟨start, stop⟩] := by
  rw [liveSpans, liveSpansOnto, if_pos nonempty, List.reverse_singleton]

namespace Trace.Explains

variable {trace : Trace} {body : Body} {context : AssemblyContext} {before after : Pool}
  {code : CodeAttribute} {outline : Outline} {table : ConstantTable}
  {listing : List (Nat × RawInstruction)} (explains : trace.Explains body context before code after)

include explains

/-- Without code that cannot be reached there are no spans of it. -/
theorem dead_eq_nil (plain : trace.Plain body) : trace.dead = [] := by
  refine List.eq_nil_iff_forall_not_mem.mpr fun span member => ?_
  have filled := explains.dead_runs.nonempty span member
  obtain ⟨position, isCode, dead, -⟩ := (explains.mem_deadOffsets span.start).mp
    ((explains.dead_runs.covered _).mp ⟨span, member, Nat.le_refl _, filled⟩)
  exact dead (plain.live isCode)

/-- Each handler becomes one entry. -/
theorem reprotects (plain : trace.Plain body) (spells : outline.Spells table body)
    (relists : Relists outline trace.layout after.table code.code.length listing)
    (sound : trace.lowered.Sound) (aligned : trace.lowered.table.Aligned) :
    List.Forall₂ (Reprotects trace.layout after.table) body.handlers code.exceptions := by
  have grown := explains.attributes.grown
  have each := (List.forall₂_and_left _ _).mpr ⟨spells.handlers,
    (explains.exceptions.forall₂ (exceptionEntries_grows _ _)).2⟩
  rw [explains.table]
  generalize body.handlers = handlers at each
  generalize trace.exceptions = results at each
  induction each with
  | nil => exact .nil
  | @cons handler result _ _ first _ ih =>
    obtain ⟨⟨starts, marks, targetStarts, nonempty⟩, earlier, later, reached, done, finished⟩ :=
      first
    obtain ⟨start, stop, target, catchType, startFound, stopFound, targetFound, caught, entries,
      -⟩ := exceptionEntries_cases done
    have forwards : start < stop := ((relists.numbered spells).lt_iff
      ((relists.mem_iff starts.marks).mpr startFound)
      ((relists.mem_iff marks).mpr stopFound)).mpr nonempty
    rw [explains.dead_eq_nil plain, liveSpans_nil forwards] at entries
    rw [List.flatMap_cons, entries]
    have known := finished.trans grown
    have startShort := relists.lt_of_place (.inl (relists.mem_boundaries starts startFound))
    have stopShort := relists.lt_of_place (relists.mem_places marks stopFound)
    have targetShort := relists.lt_of_place (.inl (relists.mem_boundaries targetStarts targetFound))
    have catches := catches_of_yields (reached.sound sound)
      (((exceptionEntries_grows _ _ _).yields done).aligned (reached.aligned aligned)) caught
    refine .cons ⟨?_, ?_, ?_, catches.stable known.kept⟩ ih
    · rw [startFound, UInt16.toNat_ofNat_of_lt' startShort]
    · rw [stopFound, UInt16.toNat_ofNat_of_lt' stopShort]
    · rw [targetFound, UInt16.toNat_ofNat_of_lt' targetShort]

/-- The lines, read again, are those of the steps at their offsets. -/
theorem lines_listing (spells : outline.Spells table body)
    (relists : Relists outline trace.layout after.table code.code.length listing)
    (rows : List.Forall₂ (fun row entry => entry.1 = trace.start row.1 ∧
      Respells trace.layout after.table row.2.code entry.2) (rowsFrom 0 outline.steps) listing) :
    (lineEntries trace.layout trace.placed).map (fun entry => (entry.start.toNat, entry.line)) =
      (listing.zip outline.steps).flatMap fun pair => pair.2.lines.map (pair.1.1, ·) := by
  rw [explains.lineEntries_listing spells rows, List.map_flatMap]
  refine List.flatMap_congr fun pair member => ?_
  have short : pair.1.1 < 2 ^ 16 := Nat.lt_succ_of_le
    ((relists.listed.inside _ (List.of_mem_zip member).1).le.trans relists.short)
  rw [List.map_map]
  refine List.map_congr_left fun number _ => ?_
  rw [Function.comp_apply, UInt16.toNat_ofNat_of_lt' short]

/-- What was read from the code of a method is assembled into code that says the same. -/
theorem rebuilds (plain : trace.Plain body) (spells : outline.Spells before.table body)
    (sound : before.Sound) (aligned : before.table.Aligned) (fits : body.TablesFit) :
    ∃ listing tables,
      Rebuilds outline trace.layout body code after.table listing tables := by
  have keys : ∀ jump, .branch jump ∈ body.items → jump.KeysFit := by
    intro jump member
    obtain ⟨step, listed, isJump⟩ := outline.exists_step (spells.items ▸ member) rfl
    have read := spells.read step listed
    rw [isJump] at read
    cases read with
    | branch fits => exact fits
  obtain ⟨stop, listing, emitsFrom, split⟩ := explains.splits keys
  have lowered := emitsFrom.grown
  have covered := (explains.exceptions.forall₂ (exceptionEntries_grows _ _)).1
  have grown := covered.trans explains.attributes.grown
  have isTail : ∀ item ∈ outline.last.toList.map Item.label, item.isCode = false := by
    intro item member
    obtain ⟨label, -, rfl⟩ := List.mem_map.mp member
    rfl
  rw [spells.items] at emitsFrom
  have rows := explains.rows plain (Outline.drop_zero spells.items) isTail spells.read sound
    (.refl _) grown emitsFrom
  have relists := explains.relists spells.items split stop rows
  have lines := explains.lines_listing spells relists rows
  have inside : ∀ entry ∈ lineEntries trace.layout trace.placed,
      entry.start.toNat ∈ boundariesOf listing := by
    intro entry member
    have listed := List.mem_map_of_mem (f := fun entry => (entry.start.toNat, entry.line)) member
    rw [lines] at listed
    obtain ⟨pair, isPair, here⟩ := List.mem_flatMap.mp listed
    obtain ⟨number, -, same⟩ := List.mem_map.mp here
    have place : pair.1.1 = entry.start.toNat := congrArg Prod.fst same
    exact place ▸ mem_boundariesOf.mpr (List.mem_map_of_mem (List.of_mem_zip isPair).1)
  obtain ⟨raws, redrafts, debug⟩ := explains.attributes.reads relists spells
    ((lowered.trans covered).sound sound) fits (explains.length_lineEntries_le.trans fits.lines)
    inside
  refine ⟨listing, _, split, relists, explains.reprotects plain spells relists
    (lowered.sound sound) (lowered.aligned aligned), debug, ?_, ?_⟩
  · rwa [List.reverse_reverse]
  · intro entry step member
    rw [getD_linesByOffset, lines]
    exact filter_lines relists.listed.ascending member

end Trace.Explains

end Assembly

namespace Body

open Assembly

/-- The layout that assembly settles on before it writes anything. -/
def layout (body : Body) (context : AssemblyContext) : PoolM Layout := do
  let typing ← body.inferFrames context.method context.hierarchy
  let parts ← body.items.zipIdx.mapM fun (item, position) => part typing item position
  Layout.ofPieces typing.isReachable (parts.map Part.piece)

variable {body : Body} {context : AssemblyContext} {before after : Pool}

theorem layout_eq {trace : Trace} {code : CodeAttribute} {layout : Layout} {middle : Pool}
    (explains : trace.Explains body context before code after)
    (laid : Yields (body.layout context) before layout middle) : trace.layout = layout := by
  have also : Yields (body.layout context) before trace.layout trace.lowered :=
    PoolM.yields_bind.mpr ⟨_, _, PoolM.yields_lift.mpr ⟨explains.typed, rfl⟩,
      PoolM.yields_bind.mpr ⟨_, _, PoolM.yields_mapM.mpr explains.lowering,
        PoolM.yields_lift.mpr ⟨explains.laid, rfl⟩⟩⟩
  cases also.symm.trans laid
  rfl

/-- A body that was read from code is read again from the code that it is assembled into, if that
has nothing dead and no long jump in it. Only the entries of the type table move behind the others.
-/
theorem ofCode_assemble {code rebuilt : CodeAttribute} {typing : Typing} {layout : Layout}
    {middle : Pool} (built : before.Built) (decoded : Body.ofCode code before.table = .ok body)
    (typed : body.inferFrames context.method context.hierarchy = .ok typing)
    (live : ∀ position, body.IsCodeAt position → typing.isReachable position = true)
    (laid : Yields (body.layout context) before layout middle) (narrow : true ∉ layout.widened)
    (fits : body.TablesFit) (assembled : Yields (body.assemble context) before rebuilt after) :
    Body.ofCode rebuilt after.table = .ok { body with
      localVariables := body.variablesOf false ++ body.variablesOf true } := by
  obtain ⟨trace, explains⟩ := explained assembled
  obtain ⟨outline, spells⟩ := ofCode_spells decoded
  have plain : trace.Plain body := by
    refine ⟨fun {position} isCode => ?_, fun position => ?_⟩
    · cases typed.symm.trans explains.typed
      exact (explains.isReachable_iff position).mp (live position isCode)
    · rw [Trace.isWide, layout_eq explains laid, List.getD_eq_getElem?_getD]
      cases found : layout.widened.toList[position]? with
      | none => rfl
      | some wide =>
        refine Bool.eq_false_iff.mpr fun isWide => narrow ?_
        exact Array.mem_toList_iff.mp (isWide ▸ List.mem_of_getElem? found)
  obtain ⟨listing, tables, rebuilds⟩ :=
    explains.rebuilds plain spells built.sound built.aligned fits
  exact Disassembly.ofCode_ok.mpr ⟨listing, tables, outline, rebuilds.disassembles spells⟩

end Body

/-- Loads a text in an instruction with a long index, from the second slot that holds it. -/
def looseCode : CodeAttribute where
  maxStack := 1
  maxLocals := 1
  code := [0x13, 0, 8, 0x57, 0x1A, 0x99, 0, 3, 0xB1, 0xBF]
  exceptions := [⟨0, 4, 9, 0⟩]
  attributes := [⟨3, [0, 1, 0, 0, 0, 9, 0, 4, 0, 5, 0, 0]⟩,
    ⟨1, [0, 3, 0, 0, 0, 7, 0, 4, 0, 9, 0, 4, 0, 8]⟩, ⟨2, [0, 1, 0, 4, 0, 5, 0, 4, 0, 5, 0, 0]⟩]

def looseConstants : ConstantTable :=
  .ofList [.utf8 "LineNumberTable", .utf8 "LocalVariableTable", .utf8 "LocalVariableTypeTable",
    .utf8 "x", .utf8 "I", .utf8 "text", .string 6, .string 6]

def looseBody : Body where
  items := [.label ⟨0⟩, .line 7, .instruction (.loadConstant (.string "text")),
    .instruction (.plain (.stack .pop)), .label ⟨1⟩, .line 9, .line 8,
    .instruction (.load .int 0), .branch (.jumpIf (.zero .eq) ⟨2⟩), .label ⟨2⟩,
    .branch (.ret .void), .label ⟨3⟩, .branch .athrow]
  handlers := [⟨⟨0⟩, ⟨1⟩, ⟨3⟩, none⟩]
  localVariables := [⟨⟨0⟩, ⟨3⟩, 4, 5, 0, true⟩, ⟨⟨1⟩, ⟨3⟩, 4, 5, 0, false⟩]
  nextLabel := ⟨4⟩

def looseContext : AssemblyContext :=
  ⟨⟨.object, ⟨"main", by decide⟩, ⟨[.base .int], none⟩, true⟩, .flat, false⟩

def looseTyping : Typing where
  frames :=
    let frame (stack : List VType) : Option VFrame := some ⟨[.integer], stack⟩
    #[frame [], frame [], frame [], frame [VType.ofClass .string], frame [], frame [], frame [],
      frame [], frame [.integer], frame [], frame [], frame [VType.ofClass .throwable],
      frame [VType.ofClass .throwable]]
  maxStack := 1
  maxLocals := 1

/-- The same with a short index, from the first slot that holds the text. -/
def tightCode : CodeAttribute where
  maxStack := 1
  maxLocals := 1
  code := [0x12, 7, 0x57, 0x1A, 0x99, 0, 3, 0xB1, 0xBF]
  exceptions := [⟨0, 3, 8, 0⟩]
  attributes := [⟨1, [0, 3, 0, 0, 0, 7, 0, 3, 0, 9, 0, 3, 0, 8]⟩,
    ⟨2, [0, 1, 0, 3, 0, 5, 0, 4, 0, 5, 0, 0]⟩, ⟨3, [0, 1, 0, 0, 0, 8, 0, 4, 0, 5, 0, 0]⟩]

section

open Assembly Disassembly

private def looseListing : List (Nat × RawInstruction) :=
  [(0, .straight (.loadConstant 8)), (3, .straight (.plain (.stack .pop))),
    (4, .straight (.load .int 0)), (5, .branch (.jumpIf (.zero .eq) 8)),
    (8, .branch (.ret .void)), (9, .branch .athrow)]

private def looseTables : DebugTables where
  lines := [(4, 8), (4, 9), (0, 7)]
  localVariables := [⟨4, 9, ⟨4, 5, 4, 5, 0⟩, false⟩, ⟨0, 9, ⟨0, 9, 4, 5, 0⟩, true⟩]

private def looseOutline : Outline where
  steps := [⟨some ⟨0⟩, [7], .instruction (.loadConstant (.string "text"))⟩,
    ⟨none, [], .instruction (.plain (.stack .pop))⟩,
    ⟨some ⟨1⟩, [9, 8], .instruction (.load .int 0)⟩,
    ⟨none, [], .branch (.jumpIf (.zero .eq) ⟨2⟩)⟩, ⟨some ⟨2⟩, [], .branch (.ret .void)⟩,
    ⟨some ⟨3⟩, [], .branch .athrow⟩]
  last := none

set_option maxRecDepth 20000 in
private theorem loose_split : Bytecode.split looseCode.code = .ok looseListing := by rfl

private def looseLabels : List (Nat × Label) := [(0, ⟨0⟩), (4, ⟨1⟩), (8, ⟨2⟩), (9, ⟨3⟩)]

private theorem loose_labels : labelsOf looseCode looseListing looseTables = looseLabels := by cbv

private theorem loose_boundary {offset : Nat} :
    offset ∈ boundariesOf looseListing ↔ offset ∈ [0, 3, 4, 5, 8, 9] := mem_boundariesOf

private theorem loose_table {α : Type} (kind : AttributeKind) (slot : ConstantIndex)
    (encode : α → Bytes) (known : looseConstants.slotOf? (.utf8 kind.name) = some slot)
    (entry : α) (rest : List α) : PoolM.Finds looseConstants
      (tableUnlessEmpty (fun entries => PoolM.attributeOf kind (Bytes.ofList encode entries))
        (entry :: rest)) [⟨slot, Bytes.ofList encode (entry :: rest)⟩] :=
  PoolM.Finds.bind ((PoolM.Finds.intern known).bind (.pure _)) (.pure _)

private theorem loose_sound : (Pool.ofTable looseConstants).Sound :=
  Pool.ofTable_sound (by decide)

private theorem loose_debug : readDebugTables (boundariesOf looseListing) 10 looseConstants
    looseCode.attributes ⟨[], []⟩ = .ok looseTables := by
  have typed := loose_table .localVariableTypeTable 3 VariableEntry.encode (by decide +kernel)
    ⟨0, 9, 4, 5, 0⟩ []
  have lines := loose_table .lineNumberTable 1 LineEntry.encode (by decide +kernel)
    ⟨0, 7⟩ [⟨4, 9⟩, ⟨4, 8⟩]
  have plain := loose_table .localVariableTable 2 VariableEntry.encode (by decide +kernel)
    ⟨4, 5, 4, 5, 0⟩ []
  refine (readDebugTables_variables true (by decide) (by simp [loose_boundary]) loose_sound
    (.refl _) typed).trans ?_
  refine (readDebugTables_lines (by decide) (by simp [loose_boundary]) loose_sound
    (.refl _) lines).trans ?_
  change readDebugTables _ _ _ ([_] ++ []) _ = _
  exact readDebugTables_variables false (by decide) (by simp [loose_boundary]) loose_sound
    (.refl _) plain

private theorem loose_label (offset : Nat) (label : Label)
    (listed : (offset, label) ∈ looseLabels) :
    (labelMap looseCode looseListing looseTables)[offset]? = some label :=
  getElem?_labelMap.mpr (loose_labels ▸ listed)

private theorem loose_unlabelled {offset : Nat} (outside : offset ∉ looseLabels.map Prod.fst) :
    (labelMap looseCode looseListing looseTables)[offset]? = none := by
  refine Option.eq_none_iff_forall_ne_some.mpr fun label found => outside ?_
  rw [← loose_labels]
  exact List.mem_map_of_mem (f := Prod.fst) (getElem?_labelMap.mp found)

private theorem loose_lines (offset : Nat) : (linesByOffset looseTables.lines).getD offset [] =
    (([(0, 7), (4, 9), (4, 8)] : List (Nat × UInt16)).filter (·.1 == offset)).map Prod.snd :=
  getD_linesByOffset [(0, 7), (4, 9), (4, 8)] offset

theorem loose_decoded : Body.ofCode looseCode looseConstants = .ok looseBody := by
  refine ofCode_ok.mpr ⟨looseListing, looseTables, looseOutline, ?_⟩
  have jump := labelAt_ok.mpr (loose_label 8 ⟨2⟩ (by decide))
  have range (raw : RawVariable) (range : VariableRange)
      (start : (raw.start, range.start) ∈ looseLabels)
      (stop : (raw.stop, range.stop) ∈ looseLabels)
      (same : range = ⟨range.start, range.stop, raw.entry.nameIndex, raw.entry.descriptorIndex,
        raw.entry.slot, raw.inTypeTable⟩) :
      variableOf (labelMap looseCode looseListing looseTables) raw = .ok range :=
    variableOf_ok.mpr ⟨loose_label _ _ start, loose_label _ _ stop, same⟩
  exact {
    split := loose_split
    targets := by
      simp only [loose_boundary]
      decide
    exceptions := by
      rintro entry (_ | ⟨_, ⟨⟩⟩)
      exact ⟨by rw [loose_boundary]; decide, .inl (by rw [loose_boundary]; decide), by decide,
        by rw [loose_boundary]; decide⟩
    debug := loose_debug
    spelt := .cons ⟨loose_label _ _ (by decide), loose_lines 0, rfl⟩
      (.cons ⟨loose_unlabelled (by decide), loose_lines 3, rfl⟩
      (.cons ⟨loose_label _ _ (by decide), loose_lines 4, rfl⟩
      (.cons ⟨loose_unlabelled (by decide), loose_lines 5,
        Outcome.map_ok.mpr ⟨_, Outcome.map_ok.mpr ⟨_, jump, rfl⟩, rfl⟩⟩
      (.cons ⟨loose_label _ _ (by decide), loose_lines 8, rfl⟩
      (.cons ⟨loose_label _ _ (by decide), loose_lines 9, rfl⟩ .nil)))))
    last := loose_unlabelled (by decide)
    items := rfl
    handlers := Outcome.mapM_ok.mpr (.cons (handlerOf_ok.mpr ⟨rfl, loose_label _ _ (by decide),
      loose_label _ _ (by decide), loose_label _ _ (by decide)⟩) .nil)
    localVariables := Outcome.mapM_ok.mpr (.cons (range _ _ (by decide) (by decide) rfl)
      (.cons (range _ _ (by decide) (by decide) rfl) .nil))
    next := by rw [loose_labels]; rfl }

def looseParts : List Part :=
  let lowered : List (Option PoolInstruction) := [none, none, some (.loadConstant 7),
    some (.plain (.stack .pop)), none, none, none, some (.load .int 0), none, none, none, none,
    none]
  (looseBody.items.zip lowered).map fun (item, found) => ⟨item, true, found⟩

def looseLayout : Layout :=
  let widened := List.replicate 13 false
  ⟨.ofPieces (looseParts.map Part.piece) widened, widened.toArray⟩

private abbrev loosePlaced : List Placed := place looseLayout looseParts

private theorem loose_typed :
    looseBody.inferFrames looseContext.method looseContext.hierarchy = .ok looseTyping := by
  cbv

private theorem loose_known : (looseBody.items.zipIdx.mapM fun entry =>
    knownPart? looseConstants looseTyping entry.1 entry.2) = some looseParts := by
  cbv

private theorem loose_laid : Layout.ofPieces looseTyping.isReachable
    (looseParts.map Part.piece) = .ok looseLayout := by
  cbv

private theorem loose_length : ¬ 65535 < looseLayout.length := by cbv

private theorem loose_dead : deadSpans loosePlaced = [] := by cbv

private theorem loose_jumps : jumpOffsets looseLayout loosePlaced = .ok [7] := by
  cbv

private theorem loose_bytes :
    codeBytes looseLayout (deadSpans loosePlaced) loosePlaced = .ok tightCode.code := by
  cbv

private theorem loose_lineEntries : lineEntries looseLayout loosePlaced =
    [⟨0, 7⟩, ⟨3, 9⟩, ⟨3, 8⟩] := by cbv

/-- Variables and handlers for all exceptions need no constants. -/
private theorem loose_drafts (pool : Pool) (same : pool.table = looseConstants) :
    Yields (looseBody.localVariables.mapM (variableDraft looseLayout)) pool
      [⟨⟨0, 8, 4, 5, 0⟩, true, 1⟩, ⟨⟨3, 5, 4, 5, 0⟩, false, 1⟩] pool := by
  obtain ⟨_, seen⟩ := pool
  subst same
  cbv

private theorem loose_exceptions (pool : Pool) :
    Yields (looseBody.handlers.mapM (exceptionEntries looseLayout (deadSpans loosePlaced))) pool
      [([⟨0, 3, 8, 0⟩], [8])] pool := by
  cbv

open PoolM.Finds in
theorem loose_assembled :
    PoolM.Finds looseConstants (looseBody.assemble looseContext) tightCode := by
  refine (lift loose_typed).bind ((parts_find loose_known).bind ((lift loose_laid).bind ?_))
  rw [if_neg loose_length]
  refine (lift loose_jumps).bind (bind (loose_exceptions _) ((lift loose_bytes).bind ?_))
  rw [loose_lineEntries]
  refine (loose_table _ 1 _ (by decide +kernel) _ _).bind (bind (loose_drafts _ rfl) ?_)
  refine (loose_table _ 2 _ (by decide +kernel) _ _).bind ?_
  refine (loose_table _ 3 _ (by decide +kernel) _ _).bind ?_
  rw [loose_dead]
  exact PoolM.Finds.bind (.pure []) (.pure _)

private theorem loose_laidOut : PoolM.Finds looseConstants (looseBody.layout looseContext)
    looseLayout :=
  (PoolM.Finds.lift loose_typed).bind ((parts_find loose_known).bind (.lift loose_laid))

private theorem loose_live (position : Nat) (isCode : looseBody.IsCodeAt position) :
    looseTyping.isReachable position = true := by
  have all : ∀ position < 13, looseTyping.isReachable position = true := by decide
  exact all position isCode.inside

private theorem loose_built : (Pool.ofTable looseConstants).Built := .ofList (by decide)

private theorem loose_narrow : true ∉ looseLayout.widened := by simp [looseLayout]

private theorem loose_fits : looseBody.TablesFit := by
  refine ⟨by decide, fun inTypeTable => ?_⟩
  cases inTypeTable <;> decide

private theorem loose_moved : looseBody.variablesOf false ++ looseBody.variablesOf true =
    [⟨⟨1⟩, ⟨3⟩, 4, 5, 0, false⟩, ⟨⟨0⟩, ⟨3⟩, 4, 5, 0, true⟩] := by decide

theorem loose_tightened : (Pool.ofTable looseConstants).Built ∧
    Body.ofCode looseCode looseConstants = .ok looseBody ∧
    looseBody.inferFrames looseContext.method looseContext.hierarchy = .ok looseTyping ∧
    (∀ position, looseBody.IsCodeAt position → looseTyping.isReachable position = true) ∧
    PoolM.Finds looseConstants (looseBody.layout looseContext) looseLayout ∧
    true ∉ looseLayout.widened ∧ looseBody.TablesFit ∧
    PoolM.Finds looseConstants (looseBody.assemble looseContext) tightCode ∧
    Body.ofCode tightCode looseConstants = .ok { looseBody with
      localVariables := [⟨⟨1⟩, ⟨3⟩, 4, 5, 0, false⟩, ⟨⟨0⟩, ⟨3⟩, 4, 5, 0, true⟩] } := by
  have table : (Pool.ofTable looseConstants).table = looseConstants := rfl
  have decoded := loose_decoded
  rw [← table] at decoded
  have rebuilt := Body.ofCode_assemble loose_built decoded loose_typed loose_live loose_laidOut
    loose_narrow loose_fits loose_assembled
  rw [table, loose_moved] at rebuilt
  exact ⟨loose_built, loose_decoded, loose_typed, loose_live, loose_laidOut, loose_narrow,
    loose_fits, loose_assembled, rebuilt⟩

end

end ClassWeave
