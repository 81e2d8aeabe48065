import ClassWeave.Proofs.Bytes
import ClassWeave.Proofs.Code.Outline
import ClassWeave.Proofs.Code.Relisting
import ClassWeave.Proofs.Code.StackMap

/-!
# Debugging tables are read back

A table whose entries can be counted in 16 bits is read as it was written. Its entries are kept if
they start where instructions do, and the lines of an instruction keep their order.
-/

namespace ClassWeave

open PoolM (Grows Yields YieldsEach)
open Reader (Reads)

theorem Attribute.decode_reads {α : Type} {attr : Attribute} {kind : AttributeKind}
    {reader : Reader α} {value : α} (reads : Reads reader attr.info value) :
    attr.decode kind reader = .ok value := by
  have whole := reads 0 []
  rw [List.append_nil] at whole
  simp only [Attribute.decode, Reader.runFrom, whole]
  rfl

theorem LineEntry.reads (entry : LineEntry) : Reads read entry.encode entry :=
  (Reads.uint16 _).bind ((Reads.uint16 _).andThen (.pure _))

theorem VariableEntry.reads (entry : VariableEntry) : Reads read entry.encode entry := by
  simp only [encode, List.append_assoc]
  exact (Reads.uint16 _).bind ((Reads.uint16 _).bind ((Reads.uint16 _).bind ((Reads.uint16 _).bind
    ((Reads.uint16 _).andThen (.pure _)))))

/-- A table is left out if it is empty. -/
theorem Assembly.tableUnlessEmpty_cases {α : Type} {table : List α → PoolM Attribute}
    {entries : List α} {attributes : List Attribute} {before after : Pool}
    (done : Yields (tableUnlessEmpty table entries) before attributes after) :
    entries = [] ∧ attributes = [] ∨
      ∃ attr, attributes = [attr] ∧ Yields (table entries) before attr after := by
  unfold tableUnlessEmpty at done
  split at done
  · obtain ⟨rfl, -⟩ := PoolM.yields_pure.mp done
    exact .inl ⟨rfl, rfl⟩
  · obtain ⟨attr, _, made, done⟩ := PoolM.yields_bind.mp done
    obtain ⟨rfl, rfl⟩ := PoolM.yields_pure.mp done
    exact .inr ⟨attr, rfl, made⟩

namespace Disassembly

open Assembly

variable {boundaries : Boundaries} {size : Nat} {constants : ConstantTable} {before after : Pool}
  {attributes rest : List Attribute} {tables : DebugTables}

theorem readDebugTables_lines {entries : List LineEntry} (short : entries.length < 2 ^ 16)
    (inside : ∀ entry ∈ entries, entry.start.toNat ∈ boundaries) (sound : before.Sound)
    (kept : constants.Extends after.table)
    (done : Yields (tableUnlessEmpty PoolM.lineNumberTable entries) before attributes after) :
    readDebugTables boundaries size constants (attributes ++ rest) tables =
      readDebugTables boundaries size constants rest { tables with
        lines := (entries.map fun entry => (entry.start.toNat, entry.line)).reverse ++
          tables.lines } := by
  obtain ⟨rfl, rfl⟩ | ⟨attr, rfl, made⟩ := tableUnlessEmpty_cases done
  · rfl
  · obtain ⟨named, content⟩ := made.attributeOf sound
    have named := attr.name_stable kept named
    have decoded : attr.decodeLines = .ok entries :=
      Attribute.decode_reads (content ▸ Reads.list short fun entry _ => entry.reads)
    have all : (entries.filter fun entry => boundaries.contains entry.start.toNat) = entries :=
      List.filter_eq_self.mpr fun entry member =>
        Std.HashSet.contains_iff_mem.mpr (inside entry member)
    rw [List.singleton_append, readDebugTables, named]
    simp only [bind, Except.bind, beq_self_eq_true, if_true, decoded, all]

/-- What an entry of a variable table stands for. -/
def rawVariable (inTypeTable : Bool) (entry : VariableEntry) : RawVariable :=
  ⟨entry.start.toNat, entry.start.toNat + entry.length.toNat, entry, inTypeTable⟩

theorem addVariables_eq {inTypeTable : Bool} {entries : List VariableEntry}
    (inside : ∀ entry ∈ entries, entry.start.toNat ∈ boundaries ∧
      (entry.start.toNat + entry.length.toNat ∈ boundaries ∨
        entry.start.toNat + entry.length.toNat = size)) :
    addVariables boundaries size inTypeTable tables entries = { tables with
      localVariables := (entries.map (rawVariable inTypeTable)).reverse ++
        tables.localVariables } := by
  unfold addVariables
  induction entries generalizing tables with
  | nil => rfl
  | cons entry entries ih =>
    obtain ⟨⟨start, stop⟩, inside⟩ := List.forall_mem_cons.mp inside
    rw [List.foldl_cons, ih inside]
    have kept : (boundaries.contains entry.start.toNat &&
        isEdge boundaries size (entry.start.toNat + entry.length.toNat)) = true := by
      simp only [isEdge, Bool.and_eq_true, Bool.or_eq_true, beq_iff_eq,
        Std.HashSet.contains_iff_mem]
      exact ⟨start, stop⟩
    simp [kept, rawVariable]

/-- The two tables of variables differ in their names only. -/
def variableKind (inTypeTable : Bool) : AttributeKind :=
  if inTypeTable then .localVariableTypeTable else .localVariableTable

theorem readDebugTables_variables (inTypeTable : Bool) {entries : List VariableEntry}
    (short : entries.length < 2 ^ 16)
    (inside : ∀ entry ∈ entries, entry.start.toNat ∈ boundaries ∧
      (entry.start.toNat + entry.length.toNat ∈ boundaries ∨
        entry.start.toNat + entry.length.toNat = size))
    (sound : before.Sound) (kept : constants.Extends after.table)
    (done : Yields (tableUnlessEmpty (PoolM.variableTable (variableKind inTypeTable)) entries)
      before attributes after) :
    readDebugTables boundaries size constants (attributes ++ rest) tables =
      readDebugTables boundaries size constants rest { tables with
        localVariables := (entries.map (rawVariable inTypeTable)).reverse ++
          tables.localVariables } := by
  obtain ⟨rfl, rfl⟩ | ⟨attr, rfl, made⟩ := tableUnlessEmpty_cases done
  · rfl
  · obtain ⟨named, content⟩ := made.attributeOf sound
    have named := attr.name_stable kept named
    have decoded (kind : AttributeKind) : attr.decodeVariables kind = .ok entries :=
      Attribute.decode_reads (content ▸ Reads.list short fun entry _ => entry.reads)
    rw [List.singleton_append, readDebugTables, named, ← addVariables_eq inside]
    cases inTypeTable with
    | false =>
      rw [show (variableKind false).name = "LocalVariableTable" from rfl]
      simp [bind, Except.bind, AttributeKind.name, decoded]
    | true =>
      rw [show (variableKind true).name = "LocalVariableTypeTable" from rfl]
      simp [bind, Except.bind, AttributeKind.name, decoded]

theorem readDebugTables_stackMap {map : Attribute}
    (named : map.name constants = .ok AttributeKind.stackMapTable.name) :
    readDebugTables boundaries size constants [map] tables = .ok tables := by
  rw [readDebugTables, named]
  simp [bind, Except.bind, AttributeKind.name, readDebugTables]

/-- The lines of an offset are those of its entries, in order. -/
theorem getD_linesByOffset (lines : List (Nat × UInt16)) (offset : Nat) :
    (linesByOffset lines.reverse).getD offset [] =
      (lines.filter fun line => line.1 == offset).map Prod.snd := by
  unfold linesByOffset
  rw [List.foldl_reverse]
  induction lines with
  | nil => simp
  | cons line lines ih =>
    rw [List.foldr_cons, Std.HashMap.getD_insert, List.filter_cons]
    by_cases same : line.1 = offset
    · subst same
      simp [ih]
    · simp [same, ih]

/-- Each instruction finds its own lines. -/
theorem filter_lines {listing : List (Nat × RawInstruction)} {steps : List Step}
    (ascending : (listing.map Prod.fst).Pairwise (· < ·)) {entry : Nat × RawInstruction}
    {step : Step} (member : (entry, step) ∈ listing.zip steps) :
    (((listing.zip steps).flatMap fun pair => pair.2.lines.map (pair.1.1, ·)).filter
      fun line => line.1 == entry.1).map Prod.snd = step.lines := by
  induction listing generalizing steps with
  | nil => cases member
  | cons first listing ih =>
    cases steps with
    | nil => cases member
    | cons other steps =>
      rw [List.map_cons, List.pairwise_cons] at ascending
      obtain ⟨below, ascending⟩ := ascending
      rw [List.zip_cons_cons, List.flatMap_cons, List.filter_append, List.map_append]
      rcases List.mem_cons.mp member with same | later
      · obtain ⟨rfl, rfl⟩ := Prod.mk.inj same
        have others : ((listing.zip steps).flatMap fun pair =>
            pair.2.lines.map (pair.1.1, ·)).filter (fun line => line.1 == entry.1) = [] := by
          simp only [List.filter_eq_nil_iff, List.mem_flatMap, List.mem_map, beq_iff_eq]
          rintro _ ⟨pair, listed, number, -, rfl⟩ same
          have above := below _ (List.mem_map_of_mem (List.of_mem_zip listed).1)
          exact Nat.lt_irrefl _ (same ▸ above)
        rw [others, List.map_nil, List.append_nil]
        simp [List.filter_map, Function.comp_def]
      · have above := below _ (List.mem_map_of_mem (List.of_mem_zip later).1)
        have none : (other.lines.map (first.1, ·)).filter (fun line => line.1 == entry.1) = [] := by
          simp only [List.filter_eq_nil_iff, List.mem_map, beq_iff_eq]
          rintro _ ⟨number, -, rfl⟩ same
          exact Nat.lt_irrefl _ (same ▸ above)
        rw [none, List.map_nil, List.nil_append, ih ascending later]

end Disassembly

namespace Item

def line? : Item → Option UInt16
  | line number => some number
  | _ => none

end Item

namespace Body

def lines (body : Body) : List UInt16 := body.items.filterMap Item.line?

/-- The ranges that belong in one of the two tables. -/
def variablesOf (body : Body) (inTypeTable : Bool) : List VariableRange :=
  body.localVariables.filter fun range => range.inTypeTable == inTypeTable

/-- The entries of each debugging table can be counted in 16 bits. -/
structure TablesFit (body : Body) : Prop where
  lines : body.lines.length ≤ 65535
  localVariables (inTypeTable : Bool) : (body.variablesOf inTypeTable).length ≤ 65535

end Body

namespace Assembly

open Disassembly

namespace Trace

variable {trace : Trace} {body : Body} {context : AssemblyContext} {before after : Pool}
  {code : CodeAttribute}

/-- The entry of a line number, unless no instruction follows it. -/
def lineAt (trace : Trace) : Item × Nat → Option LineEntry
  | (.line number, position) =>
    if trace.start position < trace.layout.length then
      some ⟨UInt16.ofNat (trace.start position), number⟩
    else none
  | _ => none

namespace Explains

variable (explains : trace.Explains body context before code after)

include explains

theorem items_parts : trace.parts.map Part.item = body.items := by
  refine List.ext_getElem? fun position => ?_
  rw [List.getElem?_map]
  cases found : trace.parts[position]? with
  | none =>
    rw [List.getElem?_eq_none_iff, explains.length_parts] at found
    rw [List.getElem?_eq_none found]
    rfl
  | some made => exact (explains.item_at found).1.symm

theorem lineEntries_eq :
    lineEntries trace.layout trace.placed = body.items.zipIdx.filterMap trace.lineAt := by
  rw [lineEntries, explains.placed_eq, ← explains.items_parts, List.zipIdx_map,
    List.filterMap_map, List.filterMap_map]
  congr 1
  funext pair
  rcases pair with ⟨made, position⟩
  simp only [Function.comp_apply, Prod.map_apply, id_eq]
  cases made.item <;> rfl

/-- The lines before an instruction have its offset. -/
theorem filterMap_marks {marks rest : List Item} {position offset : Nat}
    (marked : ∀ item ∈ marks, item.isCode = false)
    (suffix : body.items.drop position = marks ++ rest) (same : trace.start position = offset)
    (inside : offset < trace.layout.length) :
    (marks.zipIdx position).filterMap trace.lineAt = marks.filterMap fun
      | .line number => some ⟨UInt16.ofNat offset, number⟩
      | _ => none := by
  induction marks generalizing position with
  | nil => rfl
  | cons item marks ih =>
    obtain ⟨isMark, marked⟩ := List.forall_mem_cons.mp marked
    obtain ⟨found, suffix⟩ := Body.drop_cons suffix
    have next := ih marked suffix ((explains.laidOut.mark found isMark).trans same)
    rw [List.zipIdx_cons, List.filterMap_cons, List.filterMap_cons, next]
    cases item with
    | label | instruction | branch => rfl
    | line number => simp only [lineAt, same, inside, if_true]

/-- Each line number has an entry, with the offset of the instruction that follows it. -/
theorem filterMap_steps {steps : List Step} {last : Option Label} {position : Nat}
    (suffix : body.items.drop position =
      steps.flatMap Step.items ++ last.toList.map Item.label)
    (isCode : ∀ step ∈ steps, step.code.isCode = true) :
    ((steps.flatMap Step.items ++ last.toList.map Item.label).zipIdx position).filterMap
      trace.lineAt = (rowsFrom position steps).flatMap fun row =>
        row.2.lines.map (⟨UInt16.ofNat (trace.start row.1), ·⟩) := by
  induction steps generalizing position with
  | nil => cases last <;> rfl
  | cons step steps ih =>
    obtain ⟨firstCode, isCode⟩ := List.forall_mem_cons.mp isCode
    obtain ⟨here, found, later⟩ := drop_step suffix
    have executed : body.IsCodeAt (position + step.marks.length) := ⟨step.code, found, firstCode⟩
    have inside := explains.laidOut.lt_of_code executed executed.inside (Nat.le_refl _)
    rw [explains.laidOut.starts_marks step.isCode_marks here, explains.start_length] at inside
    have lines := explains.filterMap_marks step.isCode_marks here rfl inside
    have code (place : Nat) : trace.lineAt (step.code, place) = none := by
      cases code : step.code with
      | line number =>
        rw [code] at firstCode
        cases firstCode
      | label | instruction | branch => rfl
    rw [List.flatMap_cons, List.append_assoc, List.zipIdx_append, List.filterMap_append,
      ih later isCode, rowsFrom, List.flatMap_cons]
    congr 1
    rw [Step.items, List.zipIdx_append, List.filterMap_append, lines]
    cases mark : step.mark <;> simp [Step.marks, mark, code, List.filterMap_map]

/-- Each line number has an entry with the offset of its instruction. -/
theorem lineEntries_listing {outline : Outline} {constants table : ConstantTable}
    {listing : List (Nat × RawInstruction)} (spells : outline.Spells table body)
    (rows : List.Forall₂ (fun row entry => entry.1 = trace.start row.1 ∧
      Respells trace.layout constants row.2.code entry.2) (rowsFrom 0 outline.steps) listing) :
    lineEntries trace.layout trace.placed = (listing.zip outline.steps).flatMap fun pair =>
      pair.2.lines.map (⟨UInt16.ofNat pair.1.1, ·⟩) := by
  have each := explains.filterMap_steps (Outline.drop_zero spells.items) fun step member =>
    (spells.read step member).isCode
  rw [explains.lineEntries_eq, spells.items]
  refine Eq.trans each ?_
  have steps := snd_rowsFrom 0 outline.steps
  generalize rowsFrom 0 outline.steps = table at rows steps
  rw [← steps]
  clear steps each
  induction rows with
  | nil => rfl
  | cons first _ ih => simp [first.1, ih]

theorem length_lineEntries_le :
    (lineEntries trace.layout trace.placed).length ≤ body.lines.length := by
  rw [explains.lineEntries_eq, Body.lines]
  generalize body.items = items
  suffices bound : ∀ position, ((items.zipIdx position).filterMap trace.lineAt).length ≤
      (items.filterMap Item.line?).length from bound 0
  induction items with
  | nil => exact fun _ => Nat.le_refl _
  | cons item items ih =>
    intro position
    have later := ih (position + 1)
    cases item with
    | label | instruction | branch => exact later
    | line number =>
      rw [List.zipIdx_cons, List.filterMap_cons, lineAt, List.filterMap_cons, Item.line?]
      split
      · rename_i missing
        exact later.trans (Nat.le_succ _)
      · exact Nat.succ_le_succ later

end Explains

end Trace

/-- The range of a variable is what an entry, read again, stands for. -/
structure Redrafts (layout : Layout) (range : VariableRange) (raw : RawVariable) : Prop where
  start : offsetOf layout range.start = .ok raw.start
  stop : offsetOf layout range.stop = .ok raw.stop
  content : range = ⟨range.start, range.stop, raw.entry.nameIndex, raw.entry.descriptorIndex,
    raw.entry.slot, raw.inTypeTable⟩

theorem Redrafts.offsets {layout : Layout} {range : VariableRange} {raw : RawVariable}
    (redrafts : Redrafts layout range raw) :
    List.Forall₂ (fun label offset => offsetOf layout label = .ok offset)
      [range.start, range.stop] [raw.start, raw.stop] :=
  .cons redrafts.start (.cons redrafts.stop .nil)

theorem variableDraft_redrafts {layout : Layout} {range : VariableRange} {before after : Pool}
    {draft : VariableDraft} (done : Yields (variableDraft layout range) before draft after)
    (short : ∀ offset, offsetOf layout range.start = .ok offset ∨
      offsetOf layout range.stop = .ok offset → offset < 2 ^ 16) :
    range.inTypeTable = draft.inTypeTable ∧
      Redrafts layout range (rawVariable draft.inTypeTable draft.entry) := by
  obtain ⟨start, _, ran, done⟩ := PoolM.yields_bind.mp done
  obtain ⟨startFound, rfl⟩ := PoolM.yields_lift.mp ran
  obtain ⟨stop, _, ran, done⟩ := PoolM.yields_bind.mp done
  obtain ⟨stopFound, rfl⟩ := PoolM.yields_lift.mp ran
  have startShort := short start (.inl startFound)
  have stopShort := short stop (.inr stopFound)
  simp only at done
  split at done
  · obtain ⟨_, _, thrown, -⟩ := PoolM.yields_bind.mp done
    exact (PoolM.not_yields_throw thrown).elim
  · rename_i forwards
    obtain ⟨descriptor, _, _, done⟩ := PoolM.yields_bind.mp done
    obtain ⟨rfl, -⟩ := PoolM.yields_pure.mp done
    have begins : (UInt16.ofNat start).toNat = start := UInt16.toNat_ofNat_of_lt' startShort
    have spans : (UInt16.ofNat (stop - start)).toNat = stop - start :=
      UInt16.toNat_ofNat_of_lt' ((Nat.sub_le _ _).trans_lt stopShort)
    refine ⟨rfl, startFound.trans ?_, stopFound.trans ?_, rfl⟩
    · rw [rawVariable, begins]
    · rw [rawVariable, begins, spans, Nat.add_sub_cancel' (Nat.le_of_not_lt forwards)]

namespace Trace

variable {trace : Trace} {body : Body} {context : AssemblyContext} {before after : Pool}
  {code : CodeAttribute}

theorem stackMap_named {map : Attribute} (sound : before.Sound)
    (done : Yields (stackMap context trace.typing trace.layout trace.sources) before map after) :
    map.name after.table = .ok AttributeKind.stackMapTable.name := by
  obtain ⟨_, _, _, _, _, _, -, stored⟩ := stackMap_cases done
  exact stored.name sound

/-- A stack map adds to the pool at most. -/
theorem mapped_grown {maps : List Attribute}
    (mapped : maps = [] ∧ before = after ∨ ∃ context map, maps = [map] ∧
      Yields (stackMap context trace.typing trace.layout trace.sources) before map after) :
    before.Grown after := by
  rcases mapped with ⟨-, rfl⟩ | ⟨context, map, -, mapFound⟩
  · exact .refl _
  · exact (stackMap_interning _ _ _ _).grows.yields mapFound

theorem Tabulates.grown {attributes : List Attribute}
    (tabulates : trace.Tabulates body after attributes) : trace.covered.Grown after := by
  obtain ⟨linesFound, drafted, plainFound, typedFound, mapped⟩ := tabulates
  have lines := (lineTable_interning _).grows.yields linesFound
  have drafts := (drafted.forall₂ (variableDraft_grows _)).1
  have plain := (variableTable_interning _ _).grows.yields plainFound
  have typed := (variableTable_interning _ _).grows.yields typedFound
  exact lines.trans (drafts.trans (plain.trans (typed.trans (mapped_grown mapped))))

end Trace

section Variables

variable {outline : Outline} {layout : Layout} {constants table : ConstantTable} {size : Nat}
  {listing : List (Nat × RawInstruction)} {body : Body} {before after : Pool}
  {drafts : List VariableDraft}

/-- The ends of a range are laid out where instructions start, or at the end. -/
theorem Redrafts.linedUp (relists : Relists outline layout constants size listing)
    (spells : outline.Spells table body) {range : VariableRange} {raw : RawVariable}
    (redrafts : Redrafts layout range raw) (member : range ∈ body.localVariables) :
    raw.start ∈ boundariesOf listing ∧ (raw.stop ∈ boundariesOf listing ∨ raw.stop = size) := by
  obtain ⟨starts, marks, -⟩ := spells.ranges range member
  exact ⟨relists.mem_boundaries starts redrafts.start, relists.mem_places marks redrafts.stop⟩

/-- The drafts for one of the two tables, read again. -/
theorem redrafts_filter (relists : Relists outline layout constants size listing)
    (spells : outline.Spells table body)
    (drafted : YieldsEach (variableDraft layout) body.localVariables before drafts after)
    (inTypeTable : Bool) :
    List.Forall₂ (Redrafts layout) (body.variablesOf inTypeTable)
      (((drafts.filter (·.inTypeTable == inTypeTable)).map VariableDraft.entry).map
        (rawVariable inTypeTable)) := by
  have short : ∀ range ∈ body.localVariables, ∀ offset, offsetOf layout range.start = .ok offset ∨
      offsetOf layout range.stop = .ok offset → offset < 2 ^ 16 := by
    intro range member offset found
    obtain ⟨starts, marks, -⟩ := spells.ranges range member
    rcases found with start | stop
    · exact relists.lt_of_place (.inl (relists.mem_boundaries starts start))
    · exact relists.lt_of_place (relists.mem_places marks stop)
  have each := (List.forall₂_and_left _ _).mpr
    ⟨short, (drafted.forall₂ (variableDraft_grows layout)).2⟩
  replace each := each.imp fun range draft ⟨short, _, _, _, done, _⟩ =>
    variableDraft_redrafts done short
  have chosen := List.rel_filter (p := fun range => range.inTypeTable == inTypeTable)
    (q := fun draft => draft.inTypeTable == inTypeTable)
    (fun range draft ⟨same, _⟩ =>
      iff_of_eq (congrArg (fun kind => (kind == inTypeTable) = true) same)) each
  have same : ((drafts.filter (·.inTypeTable == inTypeTable)).map VariableDraft.entry).map
      (rawVariable inTypeTable) = (drafts.filter (·.inTypeTable == inTypeTable)).map
        fun draft => rawVariable draft.inTypeTable draft.entry := by
    rw [List.map_map]
    refine List.map_congr_left fun draft member => ?_
    rw [Function.comp_apply, eq_of_beq (List.mem_filter.mp member).2]
  rw [same, List.forall₂_map_right_iff]
  exact chosen.imp fun _ _ related => related.2

/-- The debugging tables say what they said, the plain variables before those with signatures. -/
theorem Trace.Tabulates.reads {trace : Trace} {attributes : List Attribute}
    (tabulates : trace.Tabulates body after attributes)
    (relists : Relists outline trace.layout after.table size listing)
    (spells : outline.Spells table body) (sound : trace.covered.Sound) (fits : body.TablesFit)
    (fewLines : (lineEntries trace.layout trace.placed).length ≤ 65535)
    (linesInside : ∀ entry ∈ lineEntries trace.layout trace.placed,
      entry.start.toNat ∈ boundariesOf listing) :
    ∃ raws, List.Forall₂ (Redrafts trace.layout)
        (body.variablesOf false ++ body.variablesOf true) raws ∧
      readDebugTables (boundariesOf listing) size after.table attributes ⟨[], []⟩ =
        .ok ⟨((lineEntries trace.layout trace.placed).map fun entry =>
          (entry.start.toNat, entry.line)).reverse, raws.reverse⟩ := by
  obtain @⟨lines, plain, typed, maps, first, second, third, fourth, linesFound, drafted,
    plainFound, typedFound, mapped⟩ := tabulates
  have grownFirst := (lineTable_interning _).grows.yields linesFound
  have grownSecond := (drafted.forall₂ (variableDraft_grows _)).1
  have grownThird := (variableTable_interning _ _).grows.yields plainFound
  have grownFourth := (variableTable_interning _ _).grows.yields typedFound
  have grownLast := Trace.mapped_grown mapped
  have soundSecond := grownSecond.sound (grownFirst.sound sound)
  have soundThird := grownThird.sound soundSecond
  have redrafts := redrafts_filter relists spells drafted
  have short (inTypeTable : Bool) :
      ((trace.drafts.filter (·.inTypeTable == inTypeTable)).map VariableDraft.entry).length < 2 ^ 16 := by
    have same := (redrafts inTypeTable).length_eq
    rw [List.length_map] at same
    exact same ▸ Nat.lt_succ_of_le (fits.localVariables inTypeTable)
  have inside (inTypeTable : Bool) : ∀ entry ∈ (trace.drafts.filter
      (·.inTypeTable == inTypeTable)).map VariableDraft.entry, entry.start.toNat ∈
        boundariesOf listing ∧ (entry.start.toNat + entry.length.toNat ∈ boundariesOf listing ∨
          entry.start.toNat + entry.length.toNat = size) := by
    intro entry member
    obtain ⟨range, chosen, related⟩ := Outcome.exists_left_of_mem (redrafts inTypeTable)
      (List.mem_map_of_mem member)
    exact related.linedUp relists spells (List.mem_filter.mp chosen).1
  have isPlain : (trace.drafts.partition VariableDraft.inTypeTable).2 =
      trace.drafts.filter (·.inTypeTable == false) := by
    simp [Function.comp_def]
  have isTyped : (trace.drafts.partition VariableDraft.inTypeTable).1 =
      trace.drafts.filter (·.inTypeTable == true) := by
    simp
  rw [isPlain] at plainFound
  rw [isTyped] at typedFound
  refine ⟨_, List.rel_append (redrafts false) (redrafts true), ?_⟩
  rw [List.append_assoc, List.append_assoc,
    readDebugTables_lines (Nat.lt_succ_of_le fewLines) linesInside sound
      (((grownSecond.trans grownThird).trans (grownFourth.trans grownLast)).kept) linesFound,
    readDebugTables_variables false (short false) (inside false) soundSecond
      (grownFourth.trans grownLast).kept plainFound,
    readDebugTables_variables true (short true) (inside true) soundThird grownLast.kept typedFound]
  rw [List.append_nil, List.append_nil, ← List.reverse_append]
  rcases mapped with ⟨rfl, -⟩ | ⟨context, map, rfl, mapFound⟩
  · rfl
  · exact readDebugTables_stackMap (Trace.stackMap_named (grownFourth.sound soundThird) mapFound)

end Variables

end Assembly

end ClassWeave
