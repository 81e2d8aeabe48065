import ClassWeave.Proofs.Code.Assembly
import ClassWeave.Proofs.Code.Growth
import ClassWeave.Proofs.Code.Spelling
import ClassWeave.Proofs.Constant.Operands

/-!
# Assembling what was disassembled

When all code of a body with an outline can be reached and no jump is widened, every step of the
outline becomes one instruction, the label before it has the offset of the instruction, and so have
its lines.
-/

namespace ClassWeave

open PoolM (Grows Yields)

namespace Body

variable {body : Body} {starts : Nat → Nat} {widened : Nat → Bool} {position : Nat}
  {before after : Pool} {listing : List (Nat × RawInstruction)}

/-- Nothing is emitted for what is not executed. -/
theorem EmitsFrom.behind {marks rest : List Item} (marked : ∀ item ∈ marks, item.isCode = false)
    (emitsFrom : body.EmitsFrom starts widened position (marks ++ rest) before listing after) :
    body.EmitsFrom starts widened (position + marks.length) rest before listing after := by
  induction marks generalizing position with
  | nil => exact emitsFrom
  | cons item marks ih =>
    obtain ⟨isMark, marked⟩ := List.forall_mem_cons.mp marked
    cases emitsFrom with
    | cons first later =>
      cases first with
      | mark =>
        have shifted := ih marked later
        rwa [Nat.add_assoc, Nat.add_comm 1] at shifted
      | instruction | branch | wideGoto | wideJumpIf => cases isMark
      | deadInside isCode | deadLast isCode =>
        rw [isMark] at isCode
        cases isCode

theorem Emits.grown {item : Item} {emitted : List (Nat × RawInstruction)}
    (emits : body.Emits starts widened position item before emitted after) :
    before.Grown after := by
  cases emits with
  | instruction _ done =>
    exact (Instruction.mapM_interning PoolM.interning_operand _).grows.yields done
  | mark | branch | wideGoto | wideJumpIf | deadInside | deadLast => exact .refl _

theorem EmitsFrom.grown {items : List Item}
    (emitsFrom : body.EmitsFrom starts widened position items before listing after) :
    before.Grown after := by
  induction emitsFrom with
  | nil => exact .refl _
  | cons first _ ih => exact first.grown.trans ih

/-- What is not executed takes no bytes. -/
theorem Laid.starts_marks (laid : body.Laid starts) {marks rest : List Item}
    (marked : ∀ item ∈ marks, item.isCode = false)
    (suffix : body.items.drop position = marks ++ rest) :
    starts (position + marks.length) = starts position := by
  induction marks generalizing position with
  | nil => rfl
  | cons item marks ih =>
    obtain ⟨isMark, marked⟩ := List.forall_mem_cons.mp marked
    obtain ⟨found, suffix⟩ := drop_cons suffix
    rw [List.length_cons, Nat.add_comm marks.length, ← Nat.add_assoc, ih marked suffix,
      laid.mark found isMark]

end Body

namespace Disassembly

namespace Step

theorem isCode_marks (step : Step) : ∀ item ∈ step.marks, item.isCode = false := by
  intro item member
  rcases List.mem_append.mp member with placed | line
  · obtain ⟨label, -, rfl⟩ := List.mem_map.mp placed
    rfl
  · obtain ⟨number, -, rfl⟩ := List.mem_map.mp line
    rfl

end Step

/-- All code of an outline is in its steps. -/
theorem Outline.exists_step {outline : Outline} {item : Item} (member : item ∈ outline.items)
    (isCode : item.isCode = true) : ∃ step ∈ outline.steps, step.code = item := by
  rcases List.mem_append.mp member with within | last
  · obtain ⟨step, listed, here⟩ := List.mem_flatMap.mp within
    rcases List.mem_append.mp here with mark | isLast
    · rw [step.isCode_marks item mark] at isCode
      cases isCode
    · exact ⟨step, listed, (List.mem_singleton.mp isLast).symm⟩
  · obtain ⟨label, -, rfl⟩ := List.mem_map.mp last
    cases isCode

/-- Every label that is referred to is placed. -/
theorem Outline.Spells.marks {outline : Outline} {constants : ConstantTable} {body : Body}
    (spells : outline.Spells constants body) {label : Label} (refers : body.Refers label) :
    outline.Marks label := by
  rcases refers with ⟨jump, placed, isTarget⟩ | ⟨handler, member, isEnd⟩ | ⟨range, member, isEnd⟩
  · obtain ⟨step, listed, isJump⟩ := outline.exists_step (spells.items ▸ placed) rfl
    exact (spells.jumps step listed jump isJump label isTarget).marks
  · obtain ⟨starts, marks, target, -⟩ := spells.handlers handler member
    simp only [List.mem_cons, List.not_mem_nil, or_false] at isEnd
    rcases isEnd with rfl | rfl | rfl
    · exact starts.marks
    · exact marks
    · exact target.marks
  · obtain ⟨starts, marks, -⟩ := spells.ranges range member
    rcases List.mem_pair.mp isEnd with rfl | rfl
    · exact starts.marks
    · exact marks

theorem IsRead.isCode {constants : ConstantTable} {item : Item} (read : IsRead constants item) :
    item.isCode = true := by
  cases read <;> rfl

/-- Steps with the positions of their items. -/
def rowsFrom (position : Nat) : List Step → List (Nat × Step)
  | [] => []
  | step :: rest => (position, step) :: rowsFrom (position + step.items.length) rest

theorem snd_rowsFrom (position : Nat) (steps : List Step) :
    (rowsFrom position steps).map Prod.snd = steps := by
  induction steps generalizing position with
  | nil => rfl
  | cons step steps ih => rw [rowsFrom, List.map_cons, ih]

/-- All items are those of the steps, and what is behind them. -/
theorem Outline.drop_zero {outline : Outline} {items : List Item} (same : items = outline.items) :
    items.drop 0 = outline.steps.flatMap Step.items ++ outline.last.toList.map Item.label := same

/-- The items of a step are followed by those of the other steps. -/
theorem drop_step {items tail : List Item} {position : Nat} {step : Step} {steps : List Step}
    (suffix : items.drop position = (step :: steps).flatMap Step.items ++ tail) :
    items.drop position = step.marks ++ step.code :: (steps.flatMap Step.items ++ tail) ∧
      items[position + step.marks.length]? = some step.code ∧
      items.drop (position + step.items.length) = steps.flatMap Step.items ++ tail := by
  rw [List.flatMap_cons, List.append_assoc] at suffix
  have here : items.drop position =
      step.marks ++ step.code :: (steps.flatMap Step.items ++ tail) := by
    rw [suffix, Step.items, List.append_assoc]
    rfl
  have atCode : items.drop (position + step.marks.length) =
      step.code :: (steps.flatMap Step.items ++ tail) := by
    rw [← List.drop_drop, here, List.drop_left]
  refine ⟨here, (Body.drop_cons atCode).1, ?_⟩
  rw [← List.drop_drop, suffix, List.drop_left]

theorem drop_of_mem_rowsFrom {items tail : List Item} {position : Nat} {steps : List Step}
    (suffix : items.drop position = steps.flatMap Step.items ++ tail) {row : Nat × Step}
    (member : row ∈ rowsFrom position steps) :
    ∃ rest, items.drop row.1 = row.2.marks ++ row.2.code :: rest := by
  induction steps generalizing position with
  | nil => cases member
  | cons step steps ih =>
    obtain ⟨here, -, suffix⟩ := drop_step suffix
    rcases List.mem_cons.mp member with rfl | later
    · exact ⟨_, here⟩
    · exact ih suffix later

end Disassembly

namespace Assembly

open Disassembly

/-- An instruction that spells a step once its operands and targets are looked up. -/
inductive Respells (layout : Layout) (constants : ConstantTable) :
    Item → RawInstruction → Prop where
  | instruction {step : SymInstruction} {lowered : PoolInstruction}
      (read : lowered.mapM constants.operand = .ok step) :
      Respells layout constants (.instruction step) (.straight lowered)
  | branch {jump : Branch Label} {placed : Branch Nat}
      (retargets : jump.Retargets (fun label offset => offsetOf layout label = .ok offset) placed) :
      Respells layout constants (.branch jump) (.branch placed)

namespace Respells

variable {layout : Layout} {constants : ConstantTable} {item : Item} {raw : RawInstruction}
  (respells : Respells layout constants item raw)

include respells

theorem exists_label {offset : Nat} (member : offset ∈ raw.targets) :
    ∃ jump, item = .branch jump ∧ ∃ label ∈ jump.targets, offsetOf layout label = .ok offset := by
  cases respells with
  | instruction => cases member
  | branch retargets =>
    exact ⟨_, rfl, Outcome.exists_left_of_mem retargets.targets member⟩

theorem exists_offset {jump : Branch Label} {label : Label} (isJump : item = .branch jump)
    (member : label ∈ jump.targets) :
    ∃ offset ∈ raw.targets, offsetOf layout label = .ok offset := by
  cases respells with
  | instruction => cases isJump
  | branch retargets =>
    cases isJump
    exact Outcome.exists_right_of_mem retargets.targets member

/-- Where offsets have the labels that are laid out there, the instruction is spelt as it was. -/
theorem itemOf {labels : Std.HashMap Nat Label} (known : ∀ jump, item = .branch jump →
      ∀ label ∈ jump.targets, ∀ offset, offsetOf layout label = .ok offset →
        labels[offset]? = some label) :
    itemOf labels constants raw = .ok item := by
  cases respells with
  | instruction read => exact Outcome.map_ok.mpr ⟨_, read, rfl⟩
  | branch retargets =>
    refine Outcome.map_ok.mpr ⟨_, Branch.Retargets.mapM_back ?_, rfl⟩
    exact retargets.imp_of_mem fun label member offset found =>
      labelAt_ok.mpr (known _ rfl label member offset found)

end Respells

namespace Trace

variable {trace : Trace} {body : Body} {context : AssemblyContext} {before after : Pool}
  {code : CodeAttribute} {outline : Outline}

/-- Everything is executed in some run, and no jump is a long one. -/
structure Plain (trace : Trace) (body : Body) : Prop where
  live {position : Nat} : body.IsCodeAt position → body.Reachable position
  narrow (position : Nat) : trace.isWide position = false

theorem Explains.offsetOf_leadsTo (explains : trace.Explains body context before code after)
    {label : Label} {offset : Nat} (leads : body.LeadsTo trace.start label offset) :
    offsetOf trace.layout label = .ok offset := by
  obtain ⟨position, code, placed, first, rfl⟩ := leads
  rw [explains.offsetOf_label placed, explains.laidOut.starts_firstCode first]

/-- Code that can be reached, and is not widened, is emitted as one instruction. -/
theorem Explains.respells (explains : trace.Explains body context before code after)
    (plain : trace.Plain body) {position : Nat} {item : Item} {table : ConstantTable}
    {earlier later final : Pool} {emitted : List (Nat × RawInstruction)}
    (found : body.items[position]? = some item) (read : IsRead table item)
    (sound : earlier.Sound) (kept : earlier.table.Extends table) (grown : later.Grown final)
    (emits : body.Emits trace.start trace.isWide position item earlier emitted later) :
    ∃ raw, emitted = [(trace.start position, raw)] ∧
      Respells trace.layout final.table item raw := by
  have isCode := read.isCode
  have live := plain.live ⟨item, found, isCode⟩
  have narrow := plain.narrow position
  cases emits with
  | mark isMark =>
    rw [isMark] at isCode
    cases isCode
  | @instruction step lowered _ _ _ done =>
    cases read with
    | instruction read =>
      exact ⟨_, rfl, .instruction (Instruction.mapM_stable ConstantTable.Stable.operand lowered
        grown.kept (PoolM.instruction_reads sound kept read done))⟩
  | branch _ _ retargets =>
    exact ⟨_, rfl, .branch (retargets.imp_of_mem fun _ _ _ leads =>
      explains.offsetOf_leadsTo leads)⟩
  | wideGoto _ wide | wideJumpIf _ wide =>
    rw [narrow] at wide
    cases wide
  | deadInside _ dead | deadLast _ dead => exact (dead live).elim

/-- Each step becomes an instruction where its items are placed. -/
theorem Explains.rows (explains : trace.Explains body context before code after)
    (plain : trace.Plain body) {steps : List Step} {tail : List Item} {position : Nat}
    {table : ConstantTable} {earlier later final : Pool}
    {listing : List (Nat × RawInstruction)}
    (suffix : body.items.drop position = steps.flatMap Step.items ++ tail)
    (isTail : ∀ item ∈ tail, item.isCode = false)
    (read : ∀ step ∈ steps, IsRead table step.code) (sound : earlier.Sound)
    (kept : earlier.table.Extends table) (grown : later.Grown final)
    (emitsFrom : body.EmitsFrom trace.start trace.isWide position
      (steps.flatMap Step.items ++ tail) earlier listing later) :
    List.Forall₂ (fun row entry => entry.1 = trace.start row.1 ∧
      Respells trace.layout final.table row.2.code entry.2) (rowsFrom position steps) listing := by
  induction steps generalizing position earlier listing with
  | nil =>
    rw [← List.append_nil tail] at emitsFrom
    cases emitsFrom.behind isTail
    exact .nil
  | cons step steps ih =>
    obtain ⟨firstRead, read⟩ := List.forall_mem_cons.mp read
    obtain ⟨here, found, suffix⟩ := drop_step suffix
    rw [List.flatMap_cons, Step.items, List.append_assoc, List.append_assoc] at emitsFrom
    have next : position + step.items.length = position + step.marks.length + 1 := by
      simp [Step.items, Nat.add_assoc]
    rw [next] at suffix
    rw [rowsFrom, next]
    cases emitsFrom.behind step.isCode_marks with
    | cons emits later =>
      have firstGrown := emits.grown
      obtain ⟨raw, rfl, respells⟩ := explains.respells plain found firstRead sound kept
        (later.grown.trans grown) emits
      refine .cons ⟨?_, respells⟩ (ih suffix read (firstGrown.sound sound)
        (firstGrown.kept.trans kept) later)
      exact explains.laidOut.starts_marks step.isCode_marks here

end Trace

/-- The instruction respells the step, and the label of the step has its offset. -/
structure Respelt (layout : Layout) (constants : ConstantTable) (entry : Nat × RawInstruction)
    (step : Step) : Prop where
  mark : ∀ label ∈ step.mark, offsetOf layout label = .ok entry.1
  code : Respells layout constants step.code entry.2

/-- Code that has an instruction for each step of the outline. -/
structure Relists (outline : Outline) (layout : Layout) (constants : ConstantTable) (size : Nat)
    (listing : List (Nat × RawInstruction)) : Prop where
  listed : Bytecode.Listed size listing
  short : size ≤ 65535
  steps : List.Forall₂ (Respelt layout constants) listing outline.steps
  last : ∀ label ∈ outline.last, offsetOf layout label = .ok size

theorem Trace.Explains.relists {trace : Trace} {body : Body} {context : AssemblyContext}
    {before after : Pool} {code : CodeAttribute} {outline : Outline} {constants : ConstantTable}
    {listing : List (Nat × RawInstruction)}
    (explains : trace.Explains body context before code after)
    (items : body.items = outline.items) (split : Bytecode.split code.code = .ok listing)
    (stop : trace.start body.items.length = code.code.length)
    (rows : List.Forall₂ (fun row entry => entry.1 = trace.start row.1 ∧
      Respells trace.layout constants row.2.code entry.2) (rowsFrom 0 outline.steps) listing) :
    Relists outline trace.layout constants code.code.length listing := by
  refine ⟨Bytecode.split_ok split, ?_, ?_, ?_⟩
  · rw [← stop, explains.start_length]
    exact explains.short
  · have marked : ∀ row ∈ rowsFrom 0 outline.steps, ∀ label ∈ row.2.mark,
        offsetOf trace.layout label = .ok (trace.start row.1) := by
      intro row member label isMark
      obtain ⟨rest, suffix⟩ := drop_of_mem_rowsFrom (Outline.drop_zero items) member
      rw [Step.marks, isMark] at suffix
      exact explains.offsetOf_label (Body.drop_cons suffix).1
    rw [← snd_rowsFrom 0 outline.steps, List.forall₂_map_right_iff]
    refine ((List.forall₂_and_left _ _).mpr ⟨marked, rows⟩).flip.imp ?_
    rintro entry row ⟨marks, place, respells⟩
    exact ⟨fun label isMark => (marks label isMark).trans (by rw [place]), respells⟩
  · intro label isLast
    have suffix : body.items.drop (outline.steps.flatMap Step.items).length = [.label label] := by
      rw [items, Outline.items, isLast, List.drop_left]
      rfl
    have whole : (outline.steps.flatMap Step.items).length + 1 = body.items.length := by
      rw [items, Outline.items, isLast]
      simp
    obtain ⟨found, -⟩ := Body.drop_cons suffix
    rw [explains.offsetOf_label found, ← explains.laidOut.mark found rfl, whole, stop]

namespace Relists

variable {outline : Outline} {layout : Layout} {constants table : ConstantTable} {size : Nat}
  {listing : List (Nat × RawInstruction)} {body : Body}
  (relists : Relists outline layout constants size listing)

include relists

theorem mem_labelsAt {offset : Nat} {label : Label} :
    (offset, label) ∈ outline.labelsAt (placesOf size listing) ↔
      (∃ entry step, (entry, step) ∈ listing.zip outline.steps ∧ entry.1 = offset ∧
        step.mark = some label) ∨ offset = size ∧ outline.last = some label := by
  rw [Outline.mem_labelsAt, placesOf, Outline.marks,
    List.zip_append (by simpa using relists.steps.length_eq), List.zip_map, List.mem_append]
  simp [Prod.map, eq_comm]

/-- A label is laid out at its place. -/
theorem offsetOf_eq {offset : Nat} {label : Label}
    (member : (offset, label) ∈ outline.labelsAt (placesOf size listing)) :
    offsetOf layout label = .ok offset := by
  rcases relists.mem_labelsAt.mp member with ⟨entry, step, listed, rfl, isMark⟩ | ⟨rfl, isLast⟩
  · exact ((List.forall₂_iff_zip.mp relists.steps).2 listed).mark label isMark
  · exact relists.last label isLast

theorem exists_offset {label : Label} (marks : outline.Marks label) :
    ∃ offset, (offset, label) ∈ outline.labelsAt (placesOf size listing) := by
  have places : (placesOf size listing).length = outline.marks.length := by
    simp [placesOf, Outline.marks, relists.steps.length_eq]
  rw [Outline.Marks, ← List.map_snd_zip places.ge] at marks
  obtain ⟨⟨offset, mark⟩, member, same⟩ := List.mem_map.mp marks
  exact ⟨offset, Outline.mem_labelsAt.mpr (by rwa [← same])⟩

theorem mem_iff {offset : Nat} {label : Label} (marks : outline.Marks label) :
    (offset, label) ∈ outline.labelsAt (placesOf size listing) ↔
      offsetOf layout label = .ok offset := by
  refine ⟨relists.offsetOf_eq, fun found => ?_⟩
  obtain ⟨place, member⟩ := relists.exists_offset marks
  cases found.symm.trans (relists.offsetOf_eq member)
  exact member

/-- A label before an instruction is laid out where one starts. -/
theorem mem_boundaries {offset : Nat} {label : Label} (starts : outline.Starts label)
    (found : offsetOf layout label = .ok offset) : offset ∈ boundariesOf listing := by
  obtain ⟨step, member, isMark⟩ := List.mem_map.mp starts
  obtain ⟨entry, listed, respelt⟩ := Outcome.exists_left_of_mem relists.steps member
  cases found.symm.trans (respelt.mark label isMark)
  exact mem_boundariesOf.mpr (List.mem_map_of_mem listed)

theorem mem_places {offset : Nat} {label : Label} (marks : outline.Marks label)
    (found : offsetOf layout label = .ok offset) :
    offset ∈ boundariesOf listing ∨ offset = size := by
  rw [← mem_placesOf]
  exact (outline.fst_labelsAt_sublist _).subset
    (List.mem_map_of_mem ((relists.mem_iff marks).mpr found))

theorem lt_of_place {offset : Nat} (place : offset ∈ boundariesOf listing ∨ offset = size) :
    offset < 2 ^ 16 := by
  refine Nat.lt_succ_of_le (le_trans ?_ relists.short)
  rcases place with isStart | rfl
  · obtain ⟨entry, listed, rfl⟩ := List.mem_map.mp (mem_boundariesOf.mp isStart)
    exact (relists.listed.inside entry listed).le
  · exact Nat.le_refl _

/-- Labels are numbered from 0, and all of them are placed. -/
theorem snd_labelsAt (spells : outline.Spells table body) :
    (outline.labelsAt (placesOf size listing)).map Prod.snd =
      (List.range (outline.labelsAt (placesOf size listing)).length).map Label.mk ∧
    body.nextLabel = ⟨(outline.labelsAt (placesOf size listing)).length⟩ := by
  have places : (placesOf size listing).length = outline.steps.length + 1 := by
    simp [placesOf, relists.steps.length_eq]
  have labels := (outline.snd_labelsAt places).trans spells.numbered
  have count : (outline.labelsAt (placesOf size listing)).length = body.nextLabel.index := by
    simpa using congrArg List.length labels
  rw [labels, count]
  exact ⟨rfl, rfl⟩

/-- The labels are in the order of their numbers again. -/
theorem numbered (spells : outline.Spells table body) :
    Numbered (outline.labelsAt (placesOf size listing)) :=
  ⟨(placesOf_ascending relists.listed).sublist (outline.fst_labelsAt_sublist _),
    (relists.snd_labelsAt spells).1⟩

end Relists

end Assembly

end ClassWeave
