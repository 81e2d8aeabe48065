import ClassWeave.Proofs.Code.Listing
import ClassWeave.Proofs.Code.Outline

/-!
# What disassembly makes of code

The body that the code of a method spells: labels are where jumps and tables refer to and nowhere
else, ranges are not backwards, and every instruction is one that bytecode can hold. Offsets have no
part in this.
-/

namespace ClassWeave

theorem Branch.Retargets.keysFit {τ σ : Type} {leads : τ → σ → Prop} {jump : Branch τ}
    {placed : Branch σ} (retargets : jump.Retargets leads placed) :
    placed.KeysFit ↔ jump.KeysFit := by
  cases retargets with
  | tableSwitch default table => simp only [Branch.KeysFit, table.length_eq]
  | _ => exact Iff.rfl

namespace Disassembly

/-- An instruction that was read from bytecode. -/
inductive IsRead (constants : ConstantTable) : Item → Prop where
  | instruction {raw : PoolInstruction} {step : SymInstruction}
      (read : raw.mapM constants.operand = .ok step) : IsRead constants (.instruction step)
  | branch {jump : Branch Label} (fits : jump.KeysFit) : IsRead constants (.branch jump)

/-- The outline is that of a body that was read from the code of a method. -/
structure Outline.Spells (outline : Outline) (constants : ConstantTable) (body : Body) : Prop where
  items : body.items = outline.items
  numbered : outline.marks.filterMap id = (List.range body.nextLabel.index).map Label.mk
  read : ∀ step ∈ outline.steps, IsRead constants step.code
  jumps : ∀ step ∈ outline.steps, ∀ jump, step.code = .branch jump →
    ∀ label ∈ jump.targets, outline.Starts label
  handlers : ∀ handler ∈ body.handlers, outline.Starts handler.start ∧
    outline.Marks handler.stop ∧ outline.Starts handler.target ∧
    handler.start.index < handler.stop.index
  ranges : ∀ range ∈ body.localVariables, outline.Starts range.start ∧
    outline.Marks range.stop ∧ range.start.index ≤ range.stop.index
  referred : ∀ label, outline.Marks label → body.Refers label

variable {labels : Std.HashMap Nat Label} {constants : ConstantTable}

theorem labelAt_ok {offset : Nat} {label : Label} :
    labelAt labels offset = .ok label ↔ labels[offset]? = some label := by
  unfold labelAt
  split
  · rename_i found
    rw [found, Option.some.injEq, Except.ok.injEq]
  · rename_i missing
    simp [missing]

/-- No class stands for all exceptions. -/
def Catches (constants : ConstantTable) (index : ConstantIndex) : Option BinaryName → Prop
  | none => index = 0
  | some name => index ≠ 0 ∧ constants.binaryName index = .ok name

theorem handlerOf_ok {entry : ExceptionEntry} {handler : Handler} :
    handlerOf labels constants entry = .ok handler ↔
      Catches constants entry.catchType handler.catchType ∧
      labels[entry.start.toNat]? = some handler.start ∧
      labels[entry.stop.toNat]? = some handler.stop ∧
      labels[entry.handler.toNat]? = some handler.target := by
  obtain ⟨start, stop, target, catchType⟩ := handler
  have ends (caught : Option BinaryName) : (do
        let start ← labelAt labels entry.start.toNat
        let stop ← labelAt labels entry.stop.toNat
        let target ← labelAt labels entry.handler.toNat
        return ⟨start, stop, target, caught⟩) =
          (.ok ⟨start, stop, target, catchType⟩ : Except Fault Handler) ↔
      caught = catchType ∧ labels[entry.start.toNat]? = some start ∧
        labels[entry.stop.toNat]? = some stop ∧ labels[entry.handler.toNat]? = some target := by
    simp only [Outcome.bind_ok, labelAt_ok, Outcome.pure_ok, Handler.mk.injEq]
    constructor
    · rintro ⟨_, startFound, _, stopFound, _, targetFound, rfl, rfl, rfl, rfl⟩
      exact ⟨rfl, startFound, stopFound, targetFound⟩
    · rintro ⟨rfl, startFound, stopFound, targetFound⟩
      exact ⟨_, startFound, _, stopFound, _, targetFound, rfl, rfl, rfl, rfl⟩
  rw [handlerOf]
  split
  · rename_i all
    rw [show (pure none : Except Fault (Option BinaryName)) = .ok none from rfl]
    refine (ends none).trans (and_congr_left' ?_)
    cases catchType with
    | none => simpa [Catches] using all
    | some name => simpa [Catches] using fun other => absurd (eq_of_beq all) other
  · rename_i one
    rw [Outcome.bind_ok]
    simp only [Outcome.map_ok, ends]
    have other : entry.catchType ≠ 0 := fun same => one (beq_iff_eq.mpr same)
    cases catchType with
    | none => simp [Catches, other]
    | some name => simp [Catches, other]

theorem variableOf_ok {raw : RawVariable} {range : VariableRange} :
    variableOf labels raw = .ok range ↔
      labels[raw.start]? = some range.start ∧ labels[raw.stop]? = some range.stop ∧
        range = ⟨range.start, range.stop, raw.entry.nameIndex, raw.entry.descriptorIndex,
          raw.entry.slot, raw.inTypeTable⟩ := by
  unfold variableOf
  simp only [Outcome.bind_ok, labelAt_ok, Outcome.pure_ok]
  constructor
  · rintro ⟨start, startFound, stop, stopFound, rfl⟩
    exact ⟨startFound, stopFound, rfl⟩
  · rintro ⟨startFound, stopFound, same⟩
    exact ⟨_, startFound, _, stopFound, same.symm⟩

/-- The range of a variable lines up with the instructions. -/
structure RawVariable.LinedUp (boundaries : Boundaries) (size : Nat) (raw : RawVariable) :
    Prop where
  start : raw.start ∈ boundaries
  stop : raw.stop ∈ boundaries ∨ raw.stop = size
  forwards : raw.start ≤ raw.stop

private theorem addVariables_linedUp {boundaries : Boundaries} {size : Nat} {inTypeTable : Bool}
    {tables : DebugTables} {entries : List VariableEntry}
    (before : ∀ raw ∈ tables.localVariables, raw.LinedUp boundaries size) :
    ∀ raw ∈ (addVariables boundaries size inTypeTable tables entries).localVariables,
      raw.LinedUp boundaries size := by
  unfold addVariables
  induction entries generalizing tables with
  | nil => exact before
  | cons entry entries ih =>
    refine ih ?_
    simp only
    split
    · rename_i kept
      simp only [isEdge, Bool.and_eq_true, Bool.or_eq_true, beq_iff_eq,
        Std.HashSet.contains_iff_mem] at kept
      exact List.forall_mem_cons.mpr ⟨⟨kept.1, kept.2, Nat.le_add_right _ _⟩, before⟩
    · exact before

theorem readDebugTables_linedUp {boundaries : Boundaries} {size : Nat}
    {attributes : List Attribute} {before tables : DebugTables}
    (linedUp : ∀ raw ∈ before.localVariables, raw.LinedUp boundaries size)
    (done : readDebugTables boundaries size constants attributes before = .ok tables) :
    ∀ raw ∈ tables.localVariables, raw.LinedUp boundaries size := by
  induction attributes generalizing before with
  | nil =>
    cases done
    exact linedUp
  | cons attr rest ih =>
    obtain ⟨name, -, done⟩ := Outcome.bind_ok.mp done
    split at done
    · obtain ⟨entries, -, done⟩ := Outcome.bind_ok.mp done
      exact ih (by exact linedUp) done
    · split at done
      · obtain ⟨entries, -, done⟩ := Outcome.bind_ok.mp done
        exact ih (addVariables_linedUp linedUp) done
      · split at done
        · obtain ⟨entries, -, done⟩ := Outcome.bind_ok.mp done
          exact ih (addVariables_linedUp linedUp) done
        · exact ih linedUp done

/-- The places of labels: where instructions start, and the end of the code. -/
def placesOf (size : Nat) (listing : List (Nat × RawInstruction)) : List Nat :=
  listing.map Prod.fst ++ [size]

theorem mem_placesOf {size offset : Nat} {listing : List (Nat × RawInstruction)} :
    offset ∈ placesOf size listing ↔ offset ∈ boundariesOf listing ∨ offset = size := by
  rw [placesOf, List.mem_append, List.mem_singleton, mem_boundariesOf]

theorem placesOf_ascending {size : Nat} {listing : List (Nat × RawInstruction)}
    (listed : Bytecode.Listed size listing) : (placesOf size listing).Pairwise (· < ·) := by
  rw [placesOf, List.pairwise_append]
  refine ⟨listed.ascending, List.pairwise_singleton _ _, fun offset isStart last isLast => ?_⟩
  obtain ⟨entry, member, rfl⟩ := List.mem_map.mp isStart
  cases List.mem_singleton.mp isLast
  exact listed.inside entry member

namespace Disassembles

variable {code : CodeAttribute} {listing : List (Nat × RawInstruction)} {tables : DebugTables}
  {outline : Outline} {body : Body}
  (found : Disassembles code constants listing tables outline body)

include found

theorem listed : Bytecode.Listed code.code.length listing := Bytecode.split_ok found.split

theorem linedUp : ∀ raw ∈ tables.localVariables,
    raw.LinedUp (boundariesOf listing) code.code.length :=
  readDebugTables_linedUp (by simp) found.debug

/-- Only places have labels. -/
theorem placed {offset : Nat} {label : Label}
    (member : (offset, label) ∈ labelsOf code listing tables) :
    offset ∈ placesOf code.code.length listing := by
  rw [mem_placesOf]
  have needed := mem_fst_labelOffsets.mp (List.mem_map_of_mem member)
  rcases mem_labelled.mp needed with ⟨raw, listed, isEnd⟩ | ⟨entry, listed, isEnd⟩ |
    ⟨entry, listed, isTarget⟩
  · obtain ⟨start, stop, -⟩ := found.linedUp raw listed
    rcases List.mem_pair.mp isEnd with rfl | rfl
    · exact .inl start
    · exact stop
  · obtain ⟨start, stop, -, handler⟩ := found.exceptions entry listed
    simp only [offsetsOf, List.mem_cons, List.not_mem_nil, or_false] at isEnd
    rcases isEnd with rfl | rfl | rfl
    · exact .inl start
    · exact stop
    · exact .inl handler
  · exact .inl (found.targets entry listed offset isTarget)

theorem marks_steps : outline.steps.map Step.mark =
    listing.map fun entry => (labelMap code listing tables)[entry.1]? := by
  have each := found.spelt
  generalize outline.steps = steps at each
  clear found
  generalize labelMap code listing tables = labels at each ⊢
  generalize linesByOffset tables.lines = lines at each
  induction each with
  | nil => rfl
  | cons first _ ih => rw [List.map_cons, List.map_cons, ih, first.mark]

theorem marks_eq : outline.marks = (placesOf code.code.length listing).map
    fun offset => (labelMap code listing tables)[offset]? := by
  rw [Outline.marks, found.marks_steps, ← found.last, placesOf]
  simp

/-- An instruction starts where the label is. -/
theorem starts {offset : Nat} {label : Label} (isBoundary : offset ∈ boundariesOf listing)
    (isLabel : (labelMap code listing tables)[offset]? = some label) : outline.Starts label := by
  obtain ⟨entry, member, rfl⟩ := List.mem_map.mp (mem_boundariesOf.mp isBoundary)
  rw [Outline.Starts, found.marks_steps]
  exact List.mem_map.mpr ⟨entry, member, isLabel⟩

theorem marks_iff {label : Label} : outline.Marks label ↔
    ∃ offset, (offset, label) ∈ labelsOf code listing tables := by
  rw [Outline.Marks, found.marks_eq, List.mem_map]
  constructor
  · rintro ⟨offset, -, isLabel⟩
    exact ⟨offset, getElem?_labelMap.mp isLabel⟩
  · rintro ⟨offset, member⟩
    exact ⟨offset, found.placed member, getElem?_labelMap.mpr member⟩

/-- All labels are placed, in the order of their numbers. -/
theorem numbered :
    outline.marks.filterMap id = (List.range body.nextLabel.index).map Label.mk := by
  have size : (placesOf code.code.length listing).length = outline.steps.length + 1 := by
    simp [placesOf, found.spelt.length_eq]
  have zipped : (placesOf code.code.length listing).zip outline.marks =
      (placesOf code.code.length listing).map fun offset =>
        (offset, (labelMap code listing tables)[offset]?) := by
    rw [found.marks_eq, ← List.zip_map', List.map_id']
  have numbered := labelOffsets_numbered (labelled code listing tables)
  have ascending := (placesOf_ascending found.listed).sublist
    (outline.fst_labelsAt_sublist (placesOf code.code.length listing))
  have same : outline.labelsAt (placesOf code.code.length listing) =
      labelsOf code listing tables := by
    refine eq_of_ascending (List.pairwise_map.mp ascending)
      (List.pairwise_map.mp numbered.ascending) fun ⟨offset, label⟩ => ?_
    rw [Outline.mem_labelsAt, zipped, List.mem_map]
    constructor
    · rintro ⟨place, -, same⟩
      obtain ⟨rfl, isLabel⟩ := Prod.mk.inj same
      exact getElem?_labelMap.mp isLabel
    · intro member
      exact ⟨offset, found.placed member, by rw [getElem?_labelMap.mpr member]⟩
  rw [← Outline.snd_labelsAt size, same, found.next]
  exact numbered.labels

theorem read : ∀ step ∈ outline.steps, IsRead constants step.code := by
  intro step member
  obtain ⟨entry, listed, spelt⟩ := Outcome.exists_left_of_mem found.spelt member
  have read := spelt.code
  have fits := found.listed.fits entry listed
  cases instruction : entry.2 with
  | straight raw =>
    rw [instruction] at read
    obtain ⟨step, done, same⟩ := Outcome.map_ok.mp read
    rw [← same]
    exact .instruction done
  | branch raw =>
    rw [instruction] at read fits
    obtain ⟨jump, done, same⟩ := Outcome.map_ok.mp read
    rw [← same]
    exact .branch ((Branch.Retargets.of_mapM done).keysFit.mpr fits)

theorem jumps : ∀ step ∈ outline.steps, ∀ jump, step.code = .branch jump →
    ∀ label ∈ jump.targets, outline.Starts label := by
  intro step member jump isJump label isTarget
  obtain ⟨entry, listed, spelt⟩ := Outcome.exists_left_of_mem found.spelt member
  have read := spelt.code
  have inside := found.targets entry listed
  rw [isJump] at read
  cases instruction : entry.2 with
  | straight raw =>
    rw [instruction] at read
    obtain ⟨step, -, same⟩ := Outcome.map_ok.mp read
    cases same
  | branch raw =>
    rw [instruction] at read inside
    obtain ⟨also, done, same⟩ := Outcome.map_ok.mp read
    cases same
    obtain ⟨offset, isRawTarget, leads⟩ :=
      Outcome.exists_left_of_mem (Branch.Retargets.of_mapM done).targets isTarget
    exact found.starts (inside offset isRawTarget) (labelAt_ok.mp leads)

theorem spells_handlers : ∀ handler ∈ body.handlers, outline.Starts handler.start ∧
    outline.Marks handler.stop ∧ outline.Starts handler.target ∧
    handler.start.index < handler.stop.index := by
  intro handler member
  obtain ⟨entry, listed, read⟩ := (Outcome.mem_mapM found.handlers).mp member
  obtain ⟨-, start, stop, target⟩ := handlerOf_ok.mp read
  obtain ⟨startInside, -, nonempty, targetInside⟩ := found.exceptions entry listed
  refine ⟨found.starts startInside start, found.marks_iff.mpr ⟨_, getElem?_labelMap.mp stop⟩,
    found.starts targetInside target, ?_⟩
  exact ((labelOffsets_numbered _).lt_iff (getElem?_labelMap.mp start)
    (getElem?_labelMap.mp stop)).mp nonempty

theorem spells_ranges : ∀ range ∈ body.localVariables, outline.Starts range.start ∧
    outline.Marks range.stop ∧ range.start.index ≤ range.stop.index := by
  intro range member
  obtain ⟨raw, listed, read⟩ := (Outcome.mem_mapM found.localVariables).mp member
  obtain ⟨start, stop, -⟩ := variableOf_ok.mp read
  obtain ⟨startInside, -, forwards⟩ := found.linedUp raw (List.mem_reverse.mp listed)
  refine ⟨found.starts startInside start, found.marks_iff.mpr ⟨_, getElem?_labelMap.mp stop⟩, ?_⟩
  exact ((labelOffsets_numbered _).le_iff (getElem?_labelMap.mp start)
    (getElem?_labelMap.mp stop)).mp forwards

/-- Offsets get labels because something refers to them. -/
theorem referred : ∀ label, outline.Marks label → body.Refers label := by
  intro label marks
  obtain ⟨offset, member⟩ := found.marks_iff.mp marks
  have known := getElem?_labelMap.mpr member
  have unique {other : Label} (also : (labelMap code listing tables)[offset]? = some other) :
      label = other := Option.some.inj (known.symm.trans also)
  have needed := mem_fst_labelOffsets.mp (List.mem_map_of_mem member)
  rcases mem_labelled.mp needed with ⟨raw, listed, isEnd⟩ | ⟨entry, listed, isEnd⟩ |
    ⟨entry, listed, isTarget⟩
  · obtain ⟨range, placed, read⟩ :=
      Outcome.mapM_total found.localVariables (List.mem_reverse.mpr listed)
    obtain ⟨start, stop, -⟩ := variableOf_ok.mp read
    refine .inr (.inr ⟨range, placed, ?_⟩)
    rcases List.mem_pair.mp isEnd with rfl | rfl
    · exact unique start ▸ List.mem_cons_self
    · exact unique stop ▸ List.mem_cons_of_mem _ List.mem_cons_self
  · obtain ⟨handler, placed, read⟩ := Outcome.mapM_total found.handlers listed
    obtain ⟨-, start, stop, target⟩ := handlerOf_ok.mp read
    refine .inr (.inl ⟨handler, placed, ?_⟩)
    simp only [offsetsOf, List.mem_cons, List.not_mem_nil, or_false] at isEnd ⊢
    rcases isEnd with rfl | rfl | rfl
    · exact .inl (unique start)
    · exact .inr (.inl (unique stop))
    · exact .inr (.inr (unique target))
  · obtain ⟨step, placed, spelt⟩ := Outcome.exists_right_of_mem found.spelt listed
    have read := spelt.code
    cases instruction : entry.2 with
    | straight raw =>
      rw [instruction] at isTarget
      cases isTarget
    | branch raw =>
      rw [instruction] at read isTarget
      obtain ⟨jump, done, same⟩ := Outcome.map_ok.mp read
      obtain ⟨other, isLabel, leads⟩ :=
        Outcome.exists_right_of_mem (Branch.Retargets.of_mapM done).targets isTarget
      refine .inl ⟨jump, ?_, unique (labelAt_ok.mp leads) ▸ isLabel⟩
      rw [found.items, same]
      exact List.mem_append_left _ (List.mem_flatMap.mpr
        ⟨step, placed, List.mem_append_right _ (List.mem_singleton_self _)⟩)

end Disassembles

end Disassembly

open Disassembly in
/-- What disassembly makes of code has an outline. -/
theorem Body.ofCode_spells {code : CodeAttribute} {constants : ConstantTable} {body : Body}
    (done : Body.ofCode code constants = .ok body) :
    ∃ outline : Outline, outline.Spells constants body := by
  obtain ⟨listing, tables, outline, found⟩ := ofCode_ok.mp done
  exact ⟨outline, found.items, found.numbered, found.read, found.jumps, found.spells_handlers,
    found.spells_ranges, found.referred⟩

end ClassWeave
