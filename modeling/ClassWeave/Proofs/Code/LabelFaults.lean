import ClassWeave.Proofs.Code.Labelling
import ClassWeave.Proofs.Faults

/-!
# No fault blames a label

Typing looks up where labels are, and assembly at which offsets. If the labels of a body fit
together, both find what they look for, whatever else they fail with.
-/

namespace ClassWeave

open Outcome (Raises raises_ok raises_of_ok raises_error raises_mapError raises_mapM raises_foldlM)

/-- The fault is that a label has no place, or more than one. -/
inductive Fault.BlamesLabel : Fault → Prop where
  | undefined (label : Label) : BlamesLabel (.malformed (.undefinedLabel label))
  | undefinedJump (label : Label) : BlamesLabel (.malformed (.undefinedJumpLabel label))
  | placedTwice (label : Label) : BlamesLabel (.malformed (.labelPlacedTwice label))

namespace Hierarchy

/-- The hierarchy answers some question with the fault. -/
def Reports (hierarchy : Hierarchy) (fault : Fault) : Prop :=
  ∃ first second, hierarchy.commonSuperclass first second = .error fault

/-- The fault blames no label, unless the hierarchy has reported it. -/
def Spares (hierarchy : Hierarchy) (fault : Fault) : Prop :=
  fault.BlamesLabel → hierarchy.Reports fault

variable {hierarchy : Hierarchy}

theorem mergeReferences_spares (a b : RefType) :
    Raises hierarchy.Spares (hierarchy.mergeReferences a b) := by
  fun_induction mergeReferences hierarchy a b with
  | case1 | case4 => exact raises_ok _
  | case2 a b =>
    have reported : Raises hierarchy.Spares (hierarchy.commonSuperclass a b) :=
      fun fault failed _ => ⟨a, b, failed⟩
    exact reported.map _
  | case3 a b notObjects source target sourceFound targetFound different ih =>
    exact ih.bind fun _ _ => raises_ok _

theorem mergeTypes_spares (a b : VType) : Raises hierarchy.Spares (hierarchy.mergeTypes a b) := by
  unfold mergeTypes
  split
  · exact (mergeReferences_spares _ _).map _
  · exact raises_ok _
  · exact raises_ok _
  · exact raises_ok _

theorem mergeSlots_spares (covered : Bool) (seen : List VType) (slots : List (VType × VType)) :
    Raises hierarchy.Spares (hierarchy.mergeSlots covered seen slots) := by
  induction slots generalizing covered seen with
  | nil => exact raises_ok seen
  | cons slot rest ih =>
    unfold mergeSlots
    split
    · exact ih _ _
    · exact (mergeTypes_spares _ _).bind fun _ _ => ih _ _

theorem mergeStackValue_spares (item : Nat) (a b : VType) :
    Raises hierarchy.Spares (hierarchy.mergeStackValue item a b) := by
  refine (mergeTypes_spares a b).bind fun merged _ => ?_
  cases merged with
  | some type => exact raises_ok type
  | none => exact raises_error nofun

theorem mergeStacks_spares (item : Nat) (a b : List VType) :
    Raises hierarchy.Spares (hierarchy.mergeStacks item a b) := by
  unfold mergeStacks
  split
  · exact (raises_mapM fun _ _ => mergeStackValue_spares _ _ _).map _
  · exact raises_error nofun

theorem mergeFrames_spares (item : Nat) (existing incoming : VFrame) :
    Raises hierarchy.Spares (hierarchy.mergeFrames item existing incoming) :=
  (mergeStacks_spares _ _ _).bind fun _ _ =>
    ((mergeSlots_spares _ _ _).bind fun _ _ => raises_ok _).bind fun _ _ => raises_ok _

end Hierarchy

namespace FlowGraph

variable {body : Body} {graph : FlowGraph} {hierarchy : Hierarchy} {method : MethodContext}

theorem positionIn_spares {positions : Std.HashMap Label Nat} {label : Label}
    (known : label ∈ positions) : Raises hierarchy.Spares (positionIn positions label) :=
  raises_of_ok (positionIn_ok.mpr (Std.HashMap.getElem?_eq_some_getElem known))

/-- Labels that differ are all taken note of. -/
theorem addLabels_spares {positions : Std.HashMap Label Nat} {pairs : List (Label × Nat)}
    (once : (pairs.map Prod.fst).Nodup) (fresh : ∀ pair ∈ pairs, pair.1 ∉ positions) :
    Raises hierarchy.Spares (addLabels positions pairs) := by
  induction pairs generalizing positions with
  | nil => exact raises_ok positions
  | cons pair rest ih =>
    obtain ⟨label, position⟩ := pair
    obtain ⟨isFresh, fresh⟩ := List.forall_mem_cons.mp fresh
    obtain ⟨new, once⟩ := List.nodup_cons.mp once
    rw [addLabels, if_neg (by simpa using isFresh)]
    refine ih once fun other member => ?_
    have different : label ≠ other.1 := by
      rintro rfl
      exact new (List.mem_map.mpr ⟨other, member, rfl⟩)
    simpa [different] using fresh other member

theorem fst_placedLabels : body.placedLabels.map Prod.fst = Item.marks body.items := by
  have labels (entry : Item × Nat) :
      (entry.1.label?.map (·, entry.2)).map Prod.fst = entry.1.label? := by
    cases entry.1.label? <;> rfl
  simp only [Body.placedLabels, List.map_filterMap, labels]
  conv_rhs => rw [Item.marks, ← List.zipIdx_map_fst 0 body.items, List.filterMap_map]
  rfl

theorem ofBody_spares (well : body.WellLabelled) : Raises hierarchy.Spares (ofBody body) := by
  have added : Raises hierarchy.Spares (addLabels ∅ body.placedLabels) :=
    addLabels_spares (fst_placedLabels ▸ well.once) (by simp)
  refine added.bind fun positions done => ?_
  have known {label : Label} (refers : body.Refers label) : label ∈ positions := by
    obtain ⟨position, placed⟩ := Body.exists_labelAt.mpr (well.refers label refers)
    have found := (addLabels_getElem? done label position).mpr
      (.inr (Body.mem_placedLabels.mpr placed))
    exact Std.HashMap.mem_iff_isSome_getElem?.mpr (by simp [found])
  refine (raises_mapM fun handler member => ?_).bind fun _ _ => raises_ok _
  have ends {label : Label} (isEnd : label ∈ [handler.start, handler.stop, handler.target]) :
      Raises hierarchy.Spares (positionIn positions label) :=
    positionIn_spares (known (.inr (.inl ⟨handler, member, isEnd⟩)))
  exact (ends (by simp)).bind fun _ _ => (ends (by simp)).bind fun _ _ =>
    (ends (by simp)).bind fun _ _ => raises_ok _

variable (well : body.WellLabelled) (described : graph.Describes body)

include well described

theorem jumpsFrom_spares {item : Item} (member : item ∈ body.items) :
    Raises hierarchy.Spares (graph.jumpsFrom item) := by
  cases item with
  | label | line | instruction => exact raises_ok []
  | branch jump =>
    refine raises_mapM fun label isTarget => ?_
    obtain ⟨position, placed⟩ :=
      Body.exists_labelAt.mpr (well.refers label (.inl ⟨jump, member, isTarget⟩))
    exact raises_of_ok (described.positionIn_ok_iff.mpr placed)

theorem effect_spares {position : Nat} {item : Item} (before : VFrame)
    (member : item ∈ body.items) :
    Raises hierarchy.Spares (graph.effect method position item before) := by
  have successors : Raises hierarchy.Spares (graph.successors position item) := by
    refine (jumpsFrom_spares well described member).bind fun jumps _ => ?_
    split
    · split
      · exact raises_ok _
      · exact raises_error nofun
    · exact raises_ok _
  exact (raises_mapError fun _ => nofun).bind fun _ _ => successors.bind fun _ _ => raises_ok _

end FlowGraph

namespace FrameSearch

variable {body : Body} {graph : FlowGraph} {hierarchy : Hierarchy} {method : MethodContext}

theorem reach_spares (search : FrameSearch) (target : Nat) (incoming : VFrame) :
    Raises hierarchy.Spares (search.reach hierarchy target incoming) := by
  unfold reach
  simp only
  split
  · exact raises_ok _
  · refine (Hierarchy.mergeFrames_spares _ _ _).bind fun merged _ => ?_
    split
    · exact raises_ok _
    · exact raises_ok _

variable (well : body.WellLabelled) (described : graph.Describes body)

include well described

theorem step_spares (position : Nat) (search : FrameSearch) :
    Raises hierarchy.Spares (search.step hierarchy graph method position) := by
  unfold step
  split
  · rename_i before item _ found
    rw [described.getElem?] at found
    exact (FlowGraph.effect_spares well described before (List.mem_of_getElem? found)).bind
      fun _ _ => raises_foldlM (fun _ _ _ => reach_spares _ _ _) _
  · exact raises_ok _

/-- However long the search goes on, no label is missing. -/
theorem run_spares (fuel : Nat) (search : FrameSearch) :
    Raises hierarchy.Spares (search.run hierarchy graph method fuel) := by
  induction fuel generalizing search with
  | zero => exact raises_ok search
  | succ fuel ih =>
    obtain ⟨typing, pending⟩ := search
    cases pending with
    | nil => exact raises_ok _
    | cons position pending => exact (step_spares well described _ _).bind fun _ _ => ih _

end FrameSearch

/-- Typing a body whose labels fit together blames none of them. -/
theorem Body.WellLabelled.inferFrames_spares {body : Body} (well : body.WellLabelled)
    (method : MethodContext) (hierarchy : Hierarchy) :
    Raises hierarchy.Spares (body.inferFrames method hierarchy) := by
  refine (FlowGraph.ofBody_spares well).bind fun graph built => ?_
  have described := FlowGraph.ofBody_describes built
  have started : Raises hierarchy.Spares (FrameSearch.start graph method) := by
    unfold FrameSearch.start
    simp only
    split
    · exact raises_ok _
    · exact raises_error nofun
  refine started.bind fun search _ =>
    (FrameSearch.run_spares well described _ search).bind fun ended _ => ?_
  obtain ⟨typing, pending⟩ := ended
  cases pending with
  | nil => exact raises_ok typing
  | cons => exact raises_error nofun

namespace Branch

variable {τ σ : Type}

theorem mem_targets {jump : Branch τ} {target : τ} (leads : jump.jumpTarget? = some target) :
    target ∈ jump.targets := by
  cases jump with
  | jumpIf | goto =>
    cases leads
    exact List.mem_singleton_self target
  | tableSwitch | lookupSwitch | ret | athrow => cases leads

/-- Changing the targets of a jump only fails where one of them cannot be changed. -/
theorem raises_mapM {kind : Fault → Prop} {change : τ → Except Fault σ} {jump : Branch τ}
    (each : ∀ target ∈ jump.targets, Raises kind (change target)) :
    Raises kind (jump.mapM change) := by
  cases jump with
  | jumpIf test target => exact (each target (List.mem_singleton_self _)).map _
  | goto target => exact (each target (List.mem_singleton_self _)).map _
  | tableSwitch default low targets =>
    obtain ⟨first, later⟩ := List.forall_mem_cons.mp each
    exact first.bind fun _ _ => (Outcome.raises_mapM later).bind fun _ _ => raises_ok _
  | lookupSwitch default cases =>
    obtain ⟨first, later⟩ := List.forall_mem_cons.mp each
    refine first.bind fun _ _ =>
      (Outcome.raises_mapM fun case member => ?_).bind fun _ _ => raises_ok _
    exact (later _ (List.mem_map_of_mem member)).bind fun _ _ => raises_ok _
  | ret | athrow => exact raises_ok _

end Branch

namespace Placement

/-- A label that is in one place has an offset. -/
theorem Places.exists_offset {placement : Placement} {pieces : List Piece} {widened : List Bool}
    (places : placement.Places (pieces.zip widened)) (length : widened.length = pieces.length)
    {mark : Label} {position : Nat} (found : pieces[position]? = some (.label mark))
    (once : ∀ other, pieces[other]? = some (.label mark) → other = position) :
    ∃ offset, placement.labels[mark]? = some offset := by
  obtain ⟨inside, isLabel⟩ := List.getElem?_eq_some_iff.mp found
  have pair : (pieces.zip widened)[position]? = some (.label mark, widened[position]) := by
    simp [List.getElem?_zip_eq_some, found]
  refine ⟨_, places.label pair fun other wide also => once other ?_⟩
  exact (List.getElem?_zip_eq_some.mp also).1

end Placement

/-- The pieces are those of a body: labels are where they are in the body, and so are jumps. -/
structure Body.CutInto (body : Body) (pieces : List Piece) : Prop where
  labels (mark : Label) (position : Nat) :
    pieces[position]? = some (.label mark) ↔ body.LabelAt mark position
  jumps : ∀ jump, .branch jump ∈ pieces → .branch jump ∈ body.items

namespace Body.CutInto

variable {body : Body} {pieces : List Piece} {hierarchy : Hierarchy} {isLive : Nat → Bool}
  (cut : body.CutInto pieces) (well : body.WellLabelled)

include cut well

theorem offset_known {placement : Placement} {widened : List Bool}
    (places : placement.Places (pieces.zip widened)) (length : widened.length = pieces.length)
    {label : Label} (member : .label label ∈ body.items) :
    ∃ offset, placement.labels[label]? = some offset := by
  obtain ⟨position, placed⟩ := Body.exists_labelAt.mpr member
  exact places.exists_offset length ((cut.labels label position).mpr placed) fun other also =>
    well.unique ((cut.labels label other).mp also) placed

/-- Whether a jump is far can be told, as its target has an offset. -/
theorem mustWiden_spares {widened : List Bool} (length : widened.length = pieces.length)
    {piece : Piece} (isPiece : piece ∈ pieces) (live wide : Bool) (offset : Nat) :
    Raises hierarchy.Spares
      ((Placement.ofPieces pieces widened).mustWiden live wide offset piece) := by
  unfold Placement.mustWiden
  split
  · exact raises_ok _
  · split
    · rename_i jump
      split
      · rename_i target leads
        split
        · obtain ⟨place, known⟩ := cut.offset_known well Placement.ofPieces_places length
            (well.refers target (.inl ⟨jump, cut.jumps jump isPiece, Branch.mem_targets leads⟩))
          exact raises_of_ok (by rw [Placement.isFar, known])
        · exact raises_ok _
      · exact raises_ok _
    · exact raises_ok _

theorem widen_spares {widened : List Bool} (length : widened.length = pieces.length) :
    Raises hierarchy.Spares
      ((Placement.ofPieces pieces widened).widen isLive pieces widened) := by
  refine raises_mapM fun ⟨⟨⟨piece, wide⟩, offset⟩, position⟩ member => ?_
  have isPiece : piece ∈ pieces :=
    (List.of_mem_zip (List.of_mem_zip (List.fst_mem_of_mem_zipIdx member)).1).1
  exact cut.mustWiden_spares well length isPiece _ _ _

theorem settle_spares {fuel : Nat} {widened : List Bool} (length : widened.length = pieces.length) :
    Raises hierarchy.Spares (Layout.settle isLive pieces fuel widened) := by
  induction fuel generalizing widened with
  | zero => exact raises_ok _
  | succ fuel ih =>
    refine (cut.widen_spares well length).bind fun next nextFound => ?_
    split
    · exact raises_ok _
    · have places : (Placement.ofPieces pieces widened).offsets.size = pieces.length := by
        rw [Placement.ofPieces_places.size, List.length_zip, length, Nat.min_self]
      exact ih (Layout.widen_length places length nextFound)

end Body.CutInto

namespace Assembly

variable {body : Body} {hierarchy : Hierarchy} {layout : Layout}

theorem offsetOf_spares {label : Label} (known : ∃ offset, layout.labels[label]? = some offset) :
    Raises hierarchy.Spares (offsetOf layout label) := by
  obtain ⟨offset, found⟩ := known
  exact raises_of_ok (by rw [offsetOf, found])

theorem Part.piece_branch {made : Part} {jump : Branch Label} (isJump : made.piece = .branch jump) :
    made.item = .branch jump := by
  unfold piece at isJump
  split at isJump
  · cases isJump
  · cases isJump
  · rename_i same
    split at isJump
    · cases isJump
      exact same
    · cases isJump
  · split at isJump <;> cases isJump

theorem cutInto_parts {typing : Typing} {parts : List Part} {before after : Pool}
    (lowering : PoolM.YieldsEach (fun (item, position) => part typing item position)
      body.items.zipIdx before parts after) : body.CutInto (parts.map Part.piece) where
  labels mark position := by
    rw [List.getElem?_map, Option.map_eq_some_iff]
    constructor
    · rintro ⟨made, found, isLabel⟩
      rw [Body.LabelAt, ← Part.piece_label isLabel]
      exact (item_of_part lowering found).1
    · intro placed
      obtain ⟨made, _, _, found, -⟩ := part_of_item lowering placed
      have isLabel := Option.some.inj ((item_of_part lowering found).1.symm.trans placed)
      exact ⟨made, found, by rw [Part.piece, isLabel]⟩
  jumps jump member := by
    obtain ⟨made, listed, isJump⟩ := List.mem_map.mp member
    obtain ⟨position, found⟩ := List.mem_iff_getElem?.mp listed
    rw [← Part.piece_branch isJump]
    exact List.mem_of_getElem? (item_of_part lowering found).1

theorem mem_place {parts : List Part} {placed : Placed} (member : placed ∈ place layout parts) :
    placed.toPart ∈ parts := by
  obtain ⟨⟨⟨part, position⟩, offset, wide⟩, listed, rfl⟩ := List.mem_map.mp member
  exact List.fst_mem_of_mem_zipIdx (List.of_mem_zip listed).1

variable (well : body.WellLabelled)
  (known : ∀ label, .label label ∈ body.items → ∃ offset, layout.labels[label]? = some offset)

include well known

theorem refers_spares {label : Label} (refers : body.Refers label) :
    Raises hierarchy.Spares (offsetOf layout label) :=
  offsetOf_spares (known label (well.refers label refers))

theorem jumpOffsetsFrom_spares {part : Placed} (member : part.item ∈ body.items) :
    Raises hierarchy.Spares (jumpOffsetsFrom layout part) := by
  unfold jumpOffsetsFrom
  split
  · rename_i jump isJump
    rw [isJump] at member
    split
    · refine Raises.bind (raises_mapM fun label isTarget => ?_) fun _ _ => raises_ok _
      exact refers_spares well known (.inl ⟨jump, member, isTarget⟩)
    · exact raises_ok _
  · exact raises_ok _

theorem partBytes_spares {deadStops : Std.HashSet Nat} {part : Placed}
    (member : part.item ∈ body.items) :
    Raises hierarchy.Spares (partBytes layout deadStops part) := by
  unfold partBytes
  split
  · exact raises_ok _
  · split
    · rename_i jump isJump
      rw [isJump] at member
      refine Raises.bind (Branch.raises_mapM fun label isTarget => ?_) fun _ _ =>
        raises_mapError fun _ => nofun
      exact refers_spares well known (.inl ⟨jump, member, isTarget⟩)
    · split
      · exact raises_ok _
      · exact raises_ok _

theorem exceptionEntries_spares {dead : List Span} {handler : Handler}
    (member : handler ∈ body.handlers) :
    PoolM.Raises hierarchy.Spares (exceptionEntries layout dead handler) := by
  have ends {label : Label} (isEnd : label ∈ [handler.start, handler.stop, handler.target]) :
      PoolM.Raises hierarchy.Spares (liftM (offsetOf layout label) : PoolM Nat) :=
    PoolM.raises_lift (refers_spares well known (.inr (.inl ⟨handler, member, isEnd⟩)))
  refine (ends (by simp)).bind fun _ _ _ _ => (ends (by simp)).bind fun _ _ _ _ =>
    (ends (by simp)).bind fun _ _ _ _ => ?_
  split
  · exact (PoolM.raises_pure _).bind fun _ _ _ _ => PoolM.raises_pure _
  · exact ((PoolM.interning_className _).raises fun _ => nofun).bind fun _ _ _ _ =>
      PoolM.raises_pure _

theorem variableDraft_spares {range : VariableRange} (member : range ∈ body.localVariables) :
    PoolM.Raises hierarchy.Spares (variableDraft layout range) := by
  have ends {label : Label} (isEnd : label ∈ [range.start, range.stop]) :
      PoolM.Raises hierarchy.Spares (liftM (offsetOf layout label) : PoolM Nat) :=
    PoolM.raises_lift (refers_spares well known (.inr (.inr ⟨range, member, isEnd⟩)))
  have described : PoolM.Raises hierarchy.Spares
      (PoolM.lookup fun table => table.utf8 range.descriptorIndex) := by
    refine PoolM.raises_lookup fun table => Raises.bind ?_ fun constant _ => ?_
    · unfold ConstantTable.constant
      split
      · exact raises_ok _
      · exact raises_error nofun
    · split
      · exact raises_ok _
      · exact raises_error nofun
  refine (ends (by simp)).bind fun _ _ _ _ => (ends (by simp)).bind fun _ _ _ _ => ?_
  simp only
  split
  · exact (PoolM.raises_throw nofun).bind fun _ _ _ _ =>
      described.bind fun _ _ _ _ => PoolM.raises_pure _
  · exact described.bind fun _ _ _ _ => PoolM.raises_pure _

end Assembly

open Assembly in
/-- Assembling a body whose labels fit together blames none of them. -/
theorem Body.WellLabelled.assemble_spares {body : Body} (well : body.WellLabelled)
    (context : AssemblyContext) :
    PoolM.Raises context.hierarchy.Spares (body.assemble context) := by
  have full (slot : Nat) : context.hierarchy.Spares (.poolOverflow slot) := nofun
  refine (PoolM.raises_lift (well.inferFrames_spares _ _)).bind fun _ typing _ _ =>
    ((PoolM.interning_mapM (fun _ => part_interning _ _ _) _).raises full).bind
      fun _ parts _ lowering => ?_
  have cut : body.CutInto (parts.map Part.piece) := cutInto_parts (PoolM.yields_mapM.mp lowering)
  have items {part : Part} (member : part ∈ parts) : part.item ∈ body.items := by
    obtain ⟨position, found⟩ := List.mem_iff_getElem?.mp member
    exact List.mem_of_getElem? (item_of_part (PoolM.yields_mapM.mp lowering) found).1
  have laid : Raises context.hierarchy.Spares
      (Layout.ofPieces typing.isReachable (parts.map Part.piece)) :=
    cut.settle_spares well (by simp)
  refine (PoolM.raises_lift laid).bind fun _ layout _ laidOut => ?_
  have settled := Layout.ofPieces_settled (PoolM.yields_lift.mp laidOut).1
  have known (label : Label) (member : .label label ∈ body.items) :
      ∃ offset, layout.labels[label]? = some offset :=
    cut.offset_known well settled.places (by simpa using settled.length) member
  extract_lets placed dead maxStack goOn
  have items {part : Placed} (member : part ∈ placed) : part.item ∈ body.items :=
    items (mem_place member)
  have goesOn (checked : Unit) : PoolM.Raises context.hierarchy.Spares (goOn checked) := by
    have jumps : Raises context.hierarchy.Spares (jumpOffsets layout placed) :=
      (raises_mapM fun part member => jumpOffsetsFrom_spares well known (items member)).map _
    have bytes : Raises context.hierarchy.Spares (codeBytes layout dead placed) :=
      (raises_mapM fun part member => partBytes_spares well known (items member)).map _
    refine (PoolM.raises_lift jumps).bind fun _ jumps _ _ =>
      (PoolM.raises_mapM fun handler member => exceptionEntries_spares well known member).bind
        fun _ exceptions _ _ => (PoolM.raises_lift bytes).bind fun _ code _ _ =>
          ((lineTable_interning _).raises full).bind fun _ lines _ _ =>
            (PoolM.raises_mapM fun range member => variableDraft_spares well known member).bind
              fun _ drafts _ _ => ((variableTable_interning _ _).raises full).bind
                fun _ localVariables _ _ => ((variableTable_interning _ _).raises full).bind
                  fun _ variableTypes _ _ => ?_
    simp only
    split
    · exact (((stackMap_interning _ _ _ _).raises full).map _).bind fun _ _ _ _ =>
        PoolM.raises_pure _
    · exact (PoolM.raises_pure _).bind fun _ _ _ _ => PoolM.raises_pure _
  split
  · exact (PoolM.raises_throw nofun).bind fun _ checked _ _ => goesOn checked
  · exact goesOn ()

end ClassWeave
