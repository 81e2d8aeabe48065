import ClassWeave.Code.Disassembly
import ClassWeave.Proofs.Code.Emission
import ClassWeave.Proofs.Code.Entries
import ClassWeave.Proofs.Code.Labels

/-!
# The outline of a body

Disassembly puts at most one label before an instruction, then its line numbers, and at most one
label at the end. Labels are numbered in the order in which they are placed, so where labels are
needed settles which ones there are.
-/

namespace ClassWeave

/-- What a map made from a list knows is in the list. -/
theorem mem_of_getElem?_ofList {α : Type} {pairs : List (Nat × α)} {key : Nat} {value : α}
    (found : (Std.HashMap.ofList pairs)[key]? = some value) : (key, value) ∈ pairs := by
  induction pairs using List.reverseRecOn with
  | nil => simp at found
  | append_singleton pairs last ih =>
    rw [Std.HashMap.ofList_eq_insertMany_empty, Std.HashMap.insertMany_append,
      ← Std.HashMap.ofList_eq_insertMany_empty, Std.HashMap.insertMany_list_singleton,
      Std.HashMap.getElem?_insert] at found
    split at found
    · rename_i same
      rw [beq_iff_eq] at same
      cases found
      rw [← same]
      exact List.mem_append_right _ (List.mem_singleton_self _)
    · exact List.mem_append_left _ (ih found)

/-- What can be looked up in a map made from a list with different keys. -/
theorem getElem?_ofList_iff {α : Type} {pairs : List (Nat × α)}
    (ascending : (pairs.map Prod.fst).Pairwise (· < ·)) {key : Nat} {value : α} :
    (Std.HashMap.ofList pairs)[key]? = some value ↔ (key, value) ∈ pairs := by
  refine ⟨mem_of_getElem?_ofList, fun member => ?_⟩
  refine Std.HashMap.getElem?_ofList_of_mem BEq.rfl ?_ member
  rw [List.pairwise_map] at ascending
  exact ascending.imp fun below => by simpa using Nat.ne_of_lt below

/-- Lists in ascending order with the same elements are the same. -/
theorem eq_of_ascending {α : Type} {key : α → Nat} {values others : List α}
    (ascending : values.Pairwise fun a b => key a < key b)
    (alsoAscending : others.Pairwise fun a b => key a < key b)
    (same : ∀ value, value ∈ values ↔ value ∈ others) : values = others := by
  have nodup {values : List α} (ascending : values.Pairwise fun a b => key a < key b) :
      values.Nodup := ascending.imp fun {a b} below (equal : a = b) => by
    subst equal
    exact Nat.lt_irrefl _ below
  have permuted := (List.perm_ext_iff_of_nodup (nodup ascending) (nodup alsoAscending)).mpr same
  exact permuted.eq_of_pairwise (fun a b _ _ below above => (Nat.lt_asymm below above).elim)
    ascending alsoAscending

namespace Disassembly

/-- An instruction with the label and the line numbers before it. -/
structure Step where
  mark : Option Label
  lines : List UInt16
  code : Item

def Step.marks (step : Step) : List Item :=
  step.mark.toList.map Item.label ++ step.lines.map Item.line

def Step.items (step : Step) : List Item := step.marks ++ [step.code]

/-- The steps of a body, and the label behind the last one. -/
structure Outline where
  steps : List Step
  last : Option Label

namespace Outline

variable (outline : Outline)

def items : List Item := outline.steps.flatMap Step.items ++ outline.last.toList.map Item.label

/-- The label at each place, the end included. -/
def marks : List (Option Label) := outline.steps.map Step.mark ++ [outline.last]

/-- The label is placed. -/
def Marks (label : Label) : Prop := some label ∈ outline.marks

/-- The label is placed before an instruction. -/
def Starts (label : Label) : Prop := some label ∈ outline.steps.map Step.mark

/-- The labels with the offsets of their places. -/
def labelsAt (places : List Nat) : List (Nat × Label) :=
  (places.zip outline.marks).filterMap fun (offset, mark) => mark.map (offset, ·)

variable {outline}

theorem Starts.marks {label : Label} (starts : outline.Starts label) : outline.Marks label :=
  List.mem_append_left _ starts

theorem mem_labelsAt {places : List Nat} {offset : Nat} {label : Label} :
    (offset, label) ∈ outline.labelsAt places ↔
      (offset, some label) ∈ places.zip outline.marks := by
  unfold labelsAt
  rw [List.mem_filterMap]
  constructor
  · rintro ⟨⟨place, mark⟩, member, found⟩
    obtain ⟨other, rfl, same⟩ := Option.map_eq_some_iff.mp found
    cases same
    exact member
  · intro member
    exact ⟨_, member, rfl⟩

theorem marks_of_mem_labelsAt {places : List Nat} {offset : Nat} {label : Label}
    (member : (offset, label) ∈ outline.labelsAt places) : outline.Marks label :=
  (List.of_mem_zip (mem_labelsAt.mp member)).2

theorem fst_labelsAt_sublist (places : List Nat) :
    ((outline.labelsAt places).map Prod.fst).Sublist places := by
  unfold labelsAt
  generalize outline.marks = marks
  induction places generalizing marks with
  | nil => simp
  | cons place places ih =>
    cases marks with
    | nil => simp
    | cons mark marks =>
      cases mark with
      | none => exact (ih marks).cons _
      | some label => exact (ih marks).cons_cons _

theorem snd_labelsAt {places : List Nat} (size : places.length = outline.steps.length + 1) :
    (outline.labelsAt places).map Prod.snd = outline.marks.filterMap id := by
  replace size : places.length = outline.marks.length := by simp [marks, size]
  unfold labelsAt
  generalize outline.marks = marks at size
  induction places generalizing marks with
  | nil =>
    cases marks with
    | nil => rfl
    | cons => cases size
  | cons place places ih =>
    cases marks with
    | nil => cases size
    | cons mark marks =>
      have later := ih marks (Nat.succ.inj size)
      cases mark with
      | none => simpa using later
      | some label => simpa using later

end Outline

/-- Labels in the order of their offsets, numbered from 0. -/
structure Numbered (pairs : List (Nat × Label)) : Prop where
  ascending : (pairs.map Prod.fst).Pairwise (· < ·)
  labels : pairs.map Prod.snd = (List.range pairs.length).map Label.mk

namespace Numbered

variable {pairs others : List (Nat × Label)}

theorem getElem_snd (numbered : Numbered pairs) {index : Nat} (inside : index < pairs.length) :
    pairs[index].2 = ⟨index⟩ := by
  have same : (pairs.map Prod.snd)[index]? = ((List.range pairs.length).map Label.mk)[index]? :=
    congrArg (·[index]?) numbered.labels
  simpa [inside] using same

/-- Labels are ordered as their offsets are. -/
theorem lt_iff (numbered : Numbered pairs) {first second : Nat} {a b : Label}
    (firstMember : (first, a) ∈ pairs) (secondMember : (second, b) ∈ pairs) :
    first < second ↔ a.index < b.index := by
  obtain ⟨i, iInside, iFound⟩ := List.getElem_of_mem firstMember
  obtain ⟨j, jInside, jFound⟩ := List.getElem_of_mem secondMember
  have iLabel := numbered.getElem_snd iInside
  have jLabel := numbered.getElem_snd jInside
  rw [iFound] at iLabel
  rw [jFound] at jLabel
  cases iLabel
  cases jLabel
  have ordered := List.pairwise_iff_getElem.mp (List.pairwise_map.mp numbered.ascending)
  constructor
  · intro below
    by_contra notBelow
    rcases Nat.eq_or_lt_of_le (Nat.le_of_not_lt notBelow) with same | above
    · change j = i at same
      subst same
      rw [iFound] at jFound
      cases jFound
      exact Nat.lt_irrefl _ below
    · have reversed := ordered j i jInside iInside above
      rw [iFound, jFound] at reversed
      exact Nat.lt_asymm below reversed
  · intro below
    have here := ordered i j iInside jInside below
    rwa [iFound, jFound] at here

theorem le_iff (numbered : Numbered pairs) {first second : Nat} {a b : Label}
    (firstMember : (first, a) ∈ pairs) (secondMember : (second, b) ∈ pairs) :
    first ≤ second ↔ a.index ≤ b.index := by
  rw [← Nat.not_lt, ← Nat.not_lt, numbered.lt_iff secondMember firstMember]

/-- Which offsets have labels settles which labels they have. -/
theorem unique (numbered : Numbered pairs) (other : Numbered others)
    (same : ∀ offset, offset ∈ pairs.map Prod.fst ↔ offset ∈ others.map Prod.fst) :
    pairs = others := by
  have offsets : pairs.map Prod.fst = others.map Prod.fst :=
    @eq_of_ascending Nat id _ _ numbered.ascending other.ascending same
  have size : pairs.length = others.length := by simpa using congrArg List.length offsets
  have labels : pairs.map Prod.snd = others.map Prod.snd := by
    rw [numbered.labels, other.labels, size]
  exact (List.zip_of_prod offsets labels).trans (List.zip_of_prod rfl rfl).symm

end Numbered

theorem fst_labelOffsets (offsets : List Nat) :
    (labelOffsets offsets).map Prod.fst = Offsets.sorted offsets := by
  simp [labelOffsets, Function.comp_def]

theorem labelOffsets_numbered (offsets : List Nat) : Numbered (labelOffsets offsets) := by
  refine ⟨?_, ?_⟩
  · rw [fst_labelOffsets]
    exact Offsets.sorted_ascending offsets
  · refine List.ext_getElem (by simp) fun index _ _ => ?_
    simp [labelOffsets]

theorem mem_fst_labelOffsets {offsets : List Nat} {offset : Nat} :
    offset ∈ (labelOffsets offsets).map Prod.fst ↔ offset ∈ offsets := by
  rw [fst_labelOffsets, Offsets.mem_sorted]

section Steps

variable {labels : Std.HashMap Nat Label} {lines : Std.HashMap Nat (List UInt16)}
  {constants : ConstantTable}

/-- What is made of an instruction at an offset. -/
structure Spelt (labels : Std.HashMap Nat Label) (lines : Std.HashMap Nat (List UInt16))
    (constants : ConstantTable) (entry : Nat × RawInstruction) (step : Step) : Prop where
  mark : labels[entry.1]? = step.mark
  lines : lines.getD entry.1 [] = step.lines
  code : itemOf labels constants entry.2 = .ok step.code

/-- Each instruction becomes a step. -/
theorem itemsOf_ok {seen items : List Item} {listing : List (Nat × RawInstruction)} :
    itemsOf labels lines constants seen listing = .ok items ↔
      ∃ steps, List.Forall₂ (Spelt labels lines constants) listing steps ∧
        items = (steps.flatMap Step.items).reverse ++ seen := by
  induction listing generalizing seen with
  | nil =>
    simp only [itemsOf, List.forall₂_nil_left_iff, exists_eq_left, List.flatMap_nil,
      List.reverse_nil, List.nil_append, Except.ok.injEq]
    exact eq_comm
  | cons entry listing ih =>
    obtain ⟨offset, instruction⟩ := entry
    rw [itemsOf, Outcome.bind_ok]
    constructor
    · rintro ⟨code, codeFound, later⟩
      obtain ⟨steps, spelt, rfl⟩ := ih.mp later
      refine ⟨⟨labels[offset]?, lines.getD offset [], code⟩ :: steps,
        .cons ⟨rfl, rfl, codeFound⟩ spelt, ?_⟩
      simp [Step.items, Step.marks, marksAt]
    · rintro ⟨steps, spelt, rfl⟩
      cases spelt with
      | @cons _ step _ steps first later =>
        refine ⟨step.code, first.code, ih.mpr ⟨steps, later, ?_⟩⟩
        simp [Step.items, Step.marks, marksAt, first.mark, first.lines]

end Steps

section Offsets

variable {boundaries : Boundaries}

/-- The targets of all jumps are listed, if each is where an instruction starts. -/
theorem jumpTargets_ok {listing : List (Nat × RawInstruction)} {seen targets : List Nat} :
    jumpTargets boundaries listing seen = .ok targets ↔
      (∀ entry ∈ listing, ∀ target ∈ entry.2.targets, target ∈ boundaries) ∧
        targets = (listing.reverse.flatMap fun entry => entry.2.targets) ++ seen := by
  induction listing generalizing seen with
  | nil => simp [jumpTargets, eq_comm]
  | cons entry listing ih =>
    obtain ⟨offset, instruction⟩ := entry
    rw [jumpTargets, List.forall_mem_cons]
    split
    · rename_i target outside
      have listed := List.mem_of_find?_eq_some outside
      have missing := List.find?_some outside
      simp only [Bool.not_eq_true', Std.HashSet.contains_eq_false_iff_not_mem] at missing
      simp only [reduceCtorEq, false_iff, not_and]
      exact fun inside _ => missing (inside.1 target listed)
    · rename_i all
      have inside : ∀ target ∈ instruction.targets, target ∈ boundaries := by
        simpa [List.find?_eq_none] using all
      rw [ih, List.reverse_cons, List.flatMap_append, List.append_assoc, and_iff_right inside]
      simp

/-- The entry lines up with the instructions. -/
structure LinedUp (boundaries : Boundaries) (size : Nat) (entry : ExceptionEntry) : Prop where
  start : entry.start.toNat ∈ boundaries
  stop : entry.stop.toNat ∈ boundaries ∨ entry.stop.toNat = size
  nonempty : entry.start.toNat < entry.stop.toNat
  handler : entry.handler.toNat ∈ boundaries

/-- The offsets of an exception entry. -/
def offsetsOf (entry : ExceptionEntry) : List Nat :=
  [entry.start.toNat, entry.stop.toNat, entry.handler.toNat]

theorem exceptionOffsets_ok {size : Nat} {entries : List ExceptionEntry}
    {seen offsets : List Nat} :
    exceptionOffsets boundaries size entries seen = .ok offsets ↔
      (∀ entry ∈ entries, LinedUp boundaries size entry) ∧
        offsets = entries.reverse.flatMap offsetsOf ++ seen := by
  induction entries generalizing seen with
  | nil => simp [exceptionOffsets, eq_comm]
  | cons entry entries ih =>
    rw [exceptionOffsets, List.forall_mem_cons, List.reverse_cons, List.flatMap_append,
      List.append_assoc]
    split
    · rename_i misaligned
      simp only [reduceCtorEq, false_iff, not_and]
      rintro ⟨⟨start, stop, nonempty, -⟩, -⟩
      simp only [isEdge, Bool.or_eq_true, Bool.not_eq_true', Bool.or_eq_false_iff,
        Std.HashSet.contains_eq_false_iff_not_mem, start, not_true_eq_false, false_or,
        beq_eq_false_iff_ne, decide_eq_true_eq] at misaligned
      rcases misaligned with ⟨within, past⟩ | empty
      · exact (stop.elim within past).elim
      · exact absurd nonempty (Nat.not_lt.mpr empty)
    · rename_i range
      split
      · rename_i misaligned
        simp only [reduceCtorEq, false_iff, not_and]
        rintro ⟨⟨-, -, -, handler⟩, -⟩
        simp [handler] at misaligned
      · rename_i handler
        have aligned : LinedUp boundaries size entry := by
          simp only [isEdge, Bool.or_eq_true, Bool.not_eq_true', Bool.or_eq_false_iff,
            not_or, decide_eq_true_eq, Nat.not_le, Bool.not_eq_false,
            Std.HashSet.contains_iff_mem] at range handler
          grind [LinedUp]
        rw [ih]
        simp [aligned, offsetsOf]

end Offsets

/-- Where the instructions of a listing start. -/
def boundariesOf (listing : List (Nat × RawInstruction)) : Boundaries :=
  Std.HashSet.ofList (listing.map Prod.fst)

theorem mem_boundariesOf {listing : List (Nat × RawInstruction)} {offset : Nat} :
    offset ∈ boundariesOf listing ↔ offset ∈ listing.map Prod.fst := by
  rw [boundariesOf, Std.HashSet.mem_ofList, List.contains_iff_mem]

/-- The offsets that need labels. -/
def labelled (code : CodeAttribute) (listing : List (Nat × RawInstruction))
    (tables : DebugTables) : List Nat :=
  (tables.localVariables.flatMap fun raw => [raw.start, raw.stop]) ++
    (code.exceptions.reverse.flatMap offsetsOf ++
      ((listing.reverse.flatMap fun entry => entry.2.targets) ++ []))

theorem mem_labelled {code : CodeAttribute} {listing : List (Nat × RawInstruction)}
    {tables : DebugTables} {offset : Nat} : offset ∈ labelled code listing tables ↔
      (∃ raw ∈ tables.localVariables, offset ∈ [raw.start, raw.stop]) ∨
      (∃ entry ∈ code.exceptions, offset ∈ offsetsOf entry) ∨
      ∃ entry ∈ listing, offset ∈ entry.2.targets := by
  simp only [labelled, List.append_nil, List.mem_append, List.mem_flatMap, List.mem_reverse]

/-- The labels of the code, each with its offset. -/
def labelsOf (code : CodeAttribute) (listing : List (Nat × RawInstruction))
    (tables : DebugTables) : List (Nat × Label) := labelOffsets (labelled code listing tables)

/-- Where labels are looked up. -/
def labelMap (code : CodeAttribute) (listing : List (Nat × RawInstruction))
    (tables : DebugTables) : Std.HashMap Nat Label :=
  Std.HashMap.ofList (labelsOf code listing tables)

theorem getElem?_labelMap {code : CodeAttribute} {listing : List (Nat × RawInstruction)}
    {tables : DebugTables} {offset : Nat} {label : Label} :
    (labelMap code listing tables)[offset]? = some label ↔
      (offset, label) ∈ labelsOf code listing tables :=
  getElem?_ofList_iff (labelOffsets_numbered _).ascending

/-- All that disassembly finds out about the code of a method on the way to a body. -/
structure Disassembles (code : CodeAttribute) (constants : ConstantTable)
    (listing : List (Nat × RawInstruction)) (tables : DebugTables) (outline : Outline)
    (body : Body) : Prop where
  split : Bytecode.split code.code = .ok listing
  targets : ∀ entry ∈ listing, ∀ target ∈ entry.2.targets, target ∈ boundariesOf listing
  exceptions : ∀ entry ∈ code.exceptions, LinedUp (boundariesOf listing) code.code.length entry
  debug : readDebugTables (boundariesOf listing) code.code.length constants code.attributes
    ⟨[], []⟩ = .ok tables
  spelt : List.Forall₂ (Spelt (labelMap code listing tables) (linesByOffset tables.lines) constants)
    listing outline.steps
  last : (labelMap code listing tables)[code.code.length]? = outline.last
  items : body.items = outline.items
  handlers : code.exceptions.mapM (handlerOf (labelMap code listing tables) constants) =
    .ok body.handlers
  localVariables : tables.localVariables.reverse.mapM (variableOf (labelMap code listing tables)) =
    .ok body.localVariables
  next : body.nextLabel = ⟨(labelsOf code listing tables).length⟩

private theorem reverse_items (steps : List Step) (last : Option Label) :
    (last.toList.map Item.label ++ ((steps.flatMap Step.items).reverse ++ [])).reverse =
      (Outline.mk steps last).items := by
  cases last <;> simp [Outline.items]

/-- A body is spelt by code exactly if all this is found out. -/
theorem ofCode_ok {code : CodeAttribute} {constants : ConstantTable} {body : Body} :
    Body.ofCode code constants = .ok body ↔
      ∃ listing tables outline, Disassembles code constants listing tables outline body := by
  constructor
  · intro done
    obtain ⟨listing, split, done⟩ := Outcome.bind_ok.mp done
    obtain ⟨targets, targetsFound, done⟩ := Outcome.bind_ok.mp done
    obtain ⟨offsets, offsetsFound, done⟩ := Outcome.bind_ok.mp done
    obtain ⟨tables, tablesFound, done⟩ := Outcome.bind_ok.mp done
    obtain ⟨inside, rfl⟩ := jumpTargets_ok.mp targetsFound
    obtain ⟨linedUp, rfl⟩ := exceptionOffsets_ok.mp offsetsFound
    obtain ⟨items, itemsFound, done⟩ := Outcome.bind_ok.mp done
    obtain ⟨handlers, handlersFound, done⟩ := Outcome.bind_ok.mp done
    obtain ⟨localVariables, variablesFound, done⟩ := Outcome.bind_ok.mp done
    obtain ⟨steps, spelt, rfl⟩ := itemsOf_ok.mp itemsFound
    cases Outcome.pure_ok.mp done
    exact ⟨listing, tables, ⟨steps, _⟩, split, inside, linedUp, tablesFound, spelt, rfl,
      reverse_items steps _, handlersFound, variablesFound, rfl⟩
  · rintro ⟨listing, tables, ⟨steps, last⟩, found⟩
    obtain ⟨split, inside, linedUp, tablesFound, spelt, isLast, items, handlers, ranges, next⟩ :=
      found
    obtain ⟨bodyItems, bodyHandlers, bodyVariables, bodyNext⟩ := body
    simp only at items handlers ranges next spelt isLast
    subst items next isLast
    rw [← reverse_items]
    exact Outcome.bind_ok.mpr ⟨listing, split, Outcome.bind_ok.mpr
      ⟨_, jumpTargets_ok.mpr ⟨inside, rfl⟩, Outcome.bind_ok.mpr
      ⟨_, exceptionOffsets_ok.mpr ⟨linedUp, rfl⟩, Outcome.bind_ok.mpr
      ⟨tables, tablesFound, Outcome.bind_ok.mpr ⟨_, itemsOf_ok.mpr ⟨steps, spelt, rfl⟩,
      Outcome.bind_ok.mpr ⟨_, handlers, Outcome.bind_ok.mpr ⟨_, ranges, rfl⟩⟩⟩⟩⟩⟩⟩

end Disassembly

end ClassWeave
