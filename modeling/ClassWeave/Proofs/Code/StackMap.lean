import Mathlib.Data.List.Chain
import ClassWeave.Proofs.Code.Growth
import ClassWeave.Proofs.Code.Leaps
import ClassWeave.Proofs.Constant.Operands

/-!
# Stack maps are complete

A stack map has entries wherever control gets to other than by falling through, and nowhere but at
instructions. Control never falls off the end of the code.
-/

namespace ClassWeave

open PoolM (Yields)

/-- Can control go on to the next instruction? -/
def RawInstruction.fallsThrough : RawInstruction → Bool
  | straight _ => true
  | branch jump => jump.fallsThrough

namespace Body

variable {body : Body} {starts : Nat → Nat} {widened : Nat → Bool}

namespace Emits

variable {position : Nat} {item : Item} {before after : Pool}
  {emitted : List (Nat × RawInstruction)}

/-- What is executed is emitted as some instructions, the first of them at its own offset. -/
theorem head_cases (emits : body.Emits starts widened position item before emitted after) :
    (item.isCode = false ∧ emitted = []) ∨
      (item.isCode = true ∧ ∃ instruction others,
        emitted = (starts position, instruction) :: others) := by
  cases emits with
  | mark mark => exact .inl ⟨mark, rfl⟩
  | instruction | branch | wideGoto | wideJumpIf => exact .inr ⟨rfl, _, _, rfl⟩
  | deadInside isCode | deadLast isCode => exact .inr ⟨isCode, _, _, rfl⟩

/-- Control falls through from all instructions of an item to the last one. -/
theorem isChain (emits : body.Emits starts widened position item before emitted after) :
    emitted.IsChain fun entry _ => entry.2.fallsThrough = true := by
  cases emits with
  | mark => exact .nil
  | wideJumpIf => exact .cons_cons rfl (.singleton _)
  | _ => exact .singleton _

/-- Where the last instruction of an item falls through, code comes next. -/
theorem falls (closed : body.Closed) (found : body.items[position]? = some item)
    (emits : body.Emits starts widened position item before emitted after)
    {entry : Nat × RawInstruction} (last : emitted.getLast? = some entry)
    (falls : entry.2.fallsThrough = true) : ∃ later, position < later ∧ body.IsCodeAt later := by
  have next (live : body.Reachable position) (goesOn : FlowGraph.fallsThrough item = true) :
      ∃ later, position < later ∧ body.IsCodeAt later := by
    obtain ⟨code, first, -⟩ := closed.firstCode (live.next found goesOn)
    exact ⟨code, first.ahead, first.isCode⟩
  cases emits with
  | mark => cases last
  | instruction live => exact next live rfl
  | branch live _ retargets =>
    cases last
    exact next live (retargets.fallsThrough.symm.trans falls)
  | wideGoto | wideJumpIf | deadLast =>
    cases last
    cases falls
  | deadInside _ _ inside =>
    by_contra none
    exact inside fun later ahead isCode => (none ⟨later, ahead, isCode⟩).elim

/-- Where the last instruction of an item does not fall through, the item does not either, or one of
its instructions jumps to the next item. -/
theorem stops (found : body.items[position]? = some item)
    (emits : body.Emits starts widened position item before emitted after)
    {entry : Nat × RawInstruction} (last : emitted.getLast? = some entry)
    (stays : entry.2.fallsThrough = false) :
    body.Stops position ∨ ∃ jump ∈ emitted, starts (position + 1) ∈ jump.2.targets := by
  have alive (live : body.Reachable position) (leaves : FlowGraph.fallsThrough item = false) :
      body.Stops position :=
    ⟨fun _ _ same => Option.some.inj (found.symm.trans same) ▸ leaves, fun dead => (dead live).elim⟩
  cases emits with
  | mark => cases last
  | instruction | deadInside =>
    cases last
    cases stays
  | branch live _ retargets =>
    cases last
    exact .inl (alive live (retargets.fallsThrough.symm.trans stays))
  | wideGoto live => exact .inl (alive live rfl)
  | wideJumpIf _ _ _ next =>
    refine .inr ⟨_, List.mem_cons_self, ?_⟩
    rw [next]
    exact List.mem_singleton_self _
  | deadLast _ dead ends => exact .inl ⟨fun _ live => (dead live).elim, fun _ => ends⟩

end Emits

namespace EmitsFrom

variable {position : Nat} {rest : List Item} {before after : Pool}
  {listing : List (Nat × RawInstruction)}

/-- All code is emitted. -/
theorem covers (emitsFrom : body.EmitsFrom starts widened position rest before listing after)
    (suffix : body.items.drop position = rest) {code : Nat} (isCode : body.IsCodeAt code)
    (ahead : position ≤ code) : starts code ∈ listing.map Prod.fst := by
  induction emitsFrom with
  | nil =>
    have outside := List.drop_eq_nil_iff.mp suffix
    exact absurd isCode.inside (Nat.not_lt.mpr (outside.trans ahead))
  | cons first _ ih =>
    obtain ⟨found, suffix⟩ := drop_cons suffix
    rw [List.map_append, List.mem_append]
    rcases Nat.eq_or_lt_of_le ahead with rfl | later
    · rcases first.head_cases with ⟨mark, -⟩ | ⟨-, instruction, others, rfl⟩
      · exact (not_isCodeAt found mark isCode).elim
      · exact .inl List.mem_cons_self
    · exact .inr (ih suffix later)

/-- The first instruction is that of the first code. -/
theorem head (emitsFrom : body.EmitsFrom starts widened position rest before listing after)
    (suffix : body.items.drop position = rest) {entry : Nat × RawInstruction}
    (isHead : listing.head? = some entry) :
    ∃ code, body.FirstCode position code ∧ starts code = entry.1 := by
  induction emitsFrom with
  | nil => cases isHead
  | cons first _ ih =>
    obtain ⟨found, suffix⟩ := drop_cons suffix
    rcases first.head_cases with ⟨mark, rfl⟩ | ⟨executed, instruction, others, rfl⟩
    · obtain ⟨code, firstCode, same⟩ := ih suffix isHead
      exact ⟨code, firstCode.skip (not_isCodeAt found mark), same⟩
    · cases isHead
      refine ⟨_, ⟨Nat.le_refl _, ⟨_, found, executed⟩, fun ahead behind => ?_⟩, rfl⟩
      exact absurd behind (Nat.not_lt.mpr ahead)

/-- Control does not fall off the end. -/
theorem last (closed : body.Closed)
    (emitsFrom : body.EmitsFrom starts widened position rest before listing after)
    (suffix : body.items.drop position = rest) {entry : Nat × RawInstruction}
    (isLast : listing.getLast? = some entry) : entry.2.fallsThrough = false := by
  induction emitsFrom with
  | nil => cases isLast
  | @cons position item rest emitted others _ _ _ first later ih =>
    obtain ⟨found, suffix⟩ := drop_cons suffix
    cases others with
    | cons next others =>
      rw [List.getLast?_append_of_ne_nil _ (List.cons_ne_nil next others)] at isLast
      exact ih suffix isLast
    | nil =>
      rw [List.append_nil] at isLast
      by_contra falls
      obtain ⟨code, ahead, isCode⟩ :=
        first.falls closed found isLast (Bool.eq_true_of_not_eq_false falls)
      cases later.covers suffix isCode ahead

/-- What comes after instructions that do not fall through is at one of the offsets, if these
include all targets and where code comes next that control does not go on to. -/
theorem isChain {offsets : List Nat}
    (meets : ∀ place next, body.IsCodeAt place → body.Stops place →
      body.FirstCode (place + 1) next → starts next ∈ offsets)
    (laid : body.Laid starts)
    (emitsFrom : body.EmitsFrom starts widened position rest before listing after)
    (suffix : body.items.drop position = rest)
    (targets : ∀ entry ∈ listing, ∀ target ∈ entry.2.targets, target ∈ offsets) :
    listing.IsChain fun entry next => entry.2.fallsThrough = false → next.1 ∈ offsets := by
  induction emitsFrom with
  | nil => exact .nil
  | cons first later ih =>
    obtain ⟨found, suffix⟩ := drop_cons suffix
    refine (first.isChain.imp fun entry next falls stays => ?_).append (ih suffix ?_) ?_
    · rw [falls] at stays
      cases stays
    · intro entry member
      exact targets entry (List.mem_append_right _ member)
    · intro entry isLast next isHead stays
      obtain ⟨code, firstCode, same⟩ := later.head suffix isHead
      rw [← same]
      rcases first.stops found isLast stays with stops | ⟨jump, member, jumps⟩
      · rcases first.head_cases with ⟨mark, rfl⟩ | ⟨executed, -⟩
        · cases isLast
        · exact meets _ _ ⟨_, found, executed⟩ stops firstCode
      · rw [laid.starts_firstCode firstCode]
        exact targets jump (List.mem_append_left _ member) _ jumps

end EmitsFrom

end Body

/-- The attribute stores the entries of a stack map, under a name that is the last to be added to
the pool, and that leads to what stack maps are called. -/
structure StackMapEntry.AreStored (entries : List StackMapEntry) (before after : Pool)
    (stored : Attribute) : Prop where
  added : ∃ earlier, before.Grown earlier ∧
    Yields (PoolM.attributeOf .stackMapTable (encodeStackMap entries)) earlier stored after
  info : stored.info = encodeStackMap entries
  name : before.Sound → stored.name after.table = .ok AttributeKind.stackMapTable.name

theorem StackMapEntry.AreStored.sooner {entries : List StackMapEntry} {before middle after : Pool}
    {stored : Attribute} (grown : before.Grown middle)
    (areStored : StackMapEntry.AreStored entries middle after stored) :
    StackMapEntry.AreStored entries before after stored := by
  obtain ⟨earlier, later, added⟩ := areStored.added
  exact ⟨⟨earlier, grown.trans later, added⟩, areStored.info,
    fun sound => areStored.name (grown.sound sound)⟩

namespace Assembly

/-- A stack map stores the entries that are made for its places. -/
theorem stackMap_cases {context : AssemblyContext} {typing : Typing} {layout : Layout}
    {sources : List (Nat × FrameSource)} {before after : Pool} {map : Attribute}
    (done : Yields (stackMap context typing layout sources) before map after) :
    ∃ entries itemOffset deadFrame initial first last,
      Yields (stackMapEntries typing itemOffset deadFrame [] none initial sources) first entries
        last ∧ StackMapEntry.AreStored entries before after map := by
  obtain ⟨initial, middle, initialStored, done⟩ := PoolM.yields_bind.mp done
  obtain ⟨thrown, first, thrownStored, done⟩ := PoolM.yields_bind.mp done
  obtain ⟨entries, last, entriesFound, stored⟩ := PoolM.yields_bind.mp done
  have grown := ((stored_interning _ _).grows.yields initialStored).trans
    (((PoolM.interning_storedType _ _).grows.yields thrownStored).trans
      ((stackMapEntries_interning _ _ _ _ _ _ _).grows.yields entriesFound))
  obtain ⟨_, _, -, same⟩ := PoolM.yields_bind.mp stored
  obtain ⟨rfl, -⟩ := PoolM.yields_pure.mp same
  exact ⟨entries, _, _, initial, first, last, entriesFound, ⟨last, grown, stored⟩, rfl,
    fun sound => (stored.attributeOf (grown.sound sound)).1⟩

/-- A stack map has entries for the places that there are frames for. -/
theorem stackMap_offsets {context : AssemblyContext} {typing : Typing} {layout : Layout}
    {sources : List (Nat × FrameSource)} {before after : Pool} {map : Attribute}
    (done : Yields (stackMap context typing layout sources) before map after)
    (ascending : (sources.map Prod.fst).Pairwise (· < ·))
    (fits : ∀ source ∈ sources, source.1 ≤ 65535)
    (framed : ∀ source ∈ sources, HasFrame typing source.2) :
    ∃ entries, StackMapEntry.AreStored entries before after map ∧
      StackMapEntry.offsetsFrom none entries = sources.map Prod.fst := by
  obtain ⟨entries, _, _, _, _, _, entriesFound, stored⟩ := stackMap_cases done
  obtain ⟨added, rfl, offsets⟩ := stackMapEntries_offsets entriesFound ascending
    (fun _ _ _ impossible => by cases impossible) fits framed
  exact ⟨_, stored, offsets⟩

namespace Trace.Explains

variable {trace : Trace} {body : Body} {context : AssemblyContext} {before after : Pool}
  {code : CodeAttribute} (explains : trace.Explains body context before code after)

include explains

/-- The places with entries are the starts of dead code and code that is leapt to, so there is a
frame for each of them. -/
theorem source_cases {source : Nat × FrameSource} (member : source ∈ trace.sources) :
    HasFrame trace.typing source.2 ∧
      ∃ position, body.IsCodeAt position ∧ trace.start position = source.1 := by
  rcases of_mem_frameSources member with ⟨isStart, isDead⟩ | ⟨leapt, part, placed, isCode, same, isItem⟩
  · obtain ⟨position, here, -, same⟩ :=
      (explains.mem_deadOffsets _).mp ((explains.dead_runs.start_iff _).mp isStart).1
    rw [isDead]
    exact ⟨trivial, position, here, same⟩
  · obtain ⟨position, made, madeFound, rfl⟩ := explains.mem_placed.mp placed
    have here : body.IsCodeAt position := ⟨_, (explains.item_at madeFound).1, isCode⟩
    obtain ⟨other, otherCode, live, sameStart⟩ := explains.startsLive_of_leap leapt
    cases explains.laidOut.code_unique here otherCode (same.trans sameStart.symm)
    rw [isItem]
    exact ⟨(explains.isReachable_iff position).mpr live, position, here, same⟩

/-- The entries of the stack map are for the offsets that are mapped. -/
theorem entries (wanted : context.emitStackMap = true) : ∃ entries,
    (entries = [] ∨ ∃ map ∈ code.attributes, StackMapEntry.AreStored entries before after map) ∧
      StackMapEntry.offsetsFrom none entries = trace.mapped := by
  by_cases needed : trace.sources = []
  · refine ⟨[], .inl rfl, ?_⟩
    rw [Trace.mapped, needed]
    rfl
  · obtain ⟨map, member, earlier, grown, done⟩ := explains.mapped wanted needed
    have fits : ∀ source ∈ trace.sources, source.1 ≤ 65535 := by
      intro source isSource
      obtain ⟨-, position, isCode, same⟩ := explains.source_cases isSource
      have inside := explains.laidOut.mono isCode.inside.le (Nat.le_refl _)
      rw [explains.start_length, same] at inside
      exact inside.trans explains.short
    obtain ⟨entries, stored, offsets⟩ := stackMap_offsets done (frameSources_ascending _ _ _) fits
      fun source isSource => (explains.source_cases isSource).1
    exact ⟨entries, .inr ⟨map, member, stored.sooner (explains.covered_grown.trans grown)⟩, offsets⟩

end Trace.Explains

end Assembly

namespace Body

/-- The offsets that a stack map has entries for are those of instructions, and include all that
control gets to other than by falling through. -/
structure MapsAll (body : Body) (starts : Nat → Nat) (listing : List (Nat × RawInstruction))
    (exceptions : List ExceptionEntry) (offsets : List Nat) : Prop where
  ascending : offsets.Pairwise (· < ·)
  instructions : ∀ offset ∈ offsets, offset ∈ listing.map Prod.fst
  targets : ∀ entry ∈ listing, ∀ target ∈ entry.2.targets, target ∈ offsets
  handlers : ∀ entry ∈ exceptions, entry.handler.toNat ∈ offsets
  /-- Entries follow instructions that control does not fall through. -/
  unfollowed : listing.IsChain fun entry next => entry.2.fallsThrough = false → next.1 ∈ offsets
  /-- Entries are where dead code begins, and where it ends. -/
  borders {place next : Nat} : body.IsCodeAt place → body.FirstCode (place + 1) next →
    ¬ (body.Reachable place ↔ body.Reachable next) → starts next ∈ offsets

variable {body : Body}

/-- The stack map of a body is complete and well placed, and control does not fall off the end of
its code. -/
theorem assemble_mapsAll {context : AssemblyContext} {before after : Pool} {code : CodeAttribute}
    (wanted : context.emitStackMap = true)
    (done : Yields (body.assemble context) before code after) :
    ∃ starts widened listing lowered entries, starts 0 = 0 ∧
      starts body.items.length = code.code.length ∧
      body.EmitsFrom starts widened 0 body.items before listing lowered ∧
      Bytecode.Written 0 listing code.code ∧
      (entries = [] ∨ ∃ map ∈ code.attributes, StackMapEntry.AreStored entries before after map) ∧
      body.MapsAll starts listing code.exceptions (StackMapEntry.offsetsFrom none entries) ∧
      ∃ entry, listing.getLast? = some entry ∧ entry.2.fallsThrough = false := by
  obtain ⟨trace, explains⟩ := Assembly.explained done
  obtain ⟨stop, listing, emitsFrom, written⟩ := explains.emitsFrom
  obtain ⟨entries, stored, offsets⟩ := explains.entries wanted
  refine ⟨trace.start, trace.isWide, listing, trace.lowered, entries, explains.start_zero, stop,
    emitsFrom, written, stored, ?_, ?_⟩
  · rw [offsets]
    have targets : ∀ entry ∈ listing, ∀ target ∈ entry.2.targets, target ∈ trace.mapped := by
      intro entry member target isTarget
      obtain ⟨_, _, _, _, _, found, emits, here⟩ := emitsFrom.origin List.drop_zero member
      obtain ⟨live, ⟨place, leap, rfl⟩ | ⟨jump, rfl, falls, wide, next, rfl⟩⟩ :=
        emits.target_cases explains.laidOut found here isTarget
      · exact explains.mapped_of_leap (explains.mem_leaps live leap)
      · rw [next]
        exact explains.mapped_of_leap
          (List.mem_append_left _ ((explains.mem_jumps live found).2 wide falls))
    refine ⟨Assembly.frameSources_ascending _ _ _, fun offset member => ?_, targets,
      fun entry member => explains.mapped_of_leap (explains.entry_handler member),
      emitsFrom.isChain (fun place next => explains.mapped_after) explains.laidOut List.drop_zero
        targets, explains.mapped_border⟩
    obtain ⟨source, isSource, rfl⟩ := List.mem_map.mp member
    obtain ⟨-, position, isCode, same⟩ := explains.source_cases isSource
    rw [← same]
    exact emitsFrom.covers List.drop_zero isCode (Nat.zero_le _)
  · obtain ⟨code, first, -⟩ := explains.closed.firstCode .refl
    have nonempty : listing ≠ [] := by
      rintro rfl
      cases emitsFrom.covers List.drop_zero first.isCode (Nat.zero_le _)
    have isLast := List.getLast?_eq_some_getLast nonempty
    exact ⟨_, isLast, emitsFrom.last explains.closed List.drop_zero isLast⟩

end Body

open Assembly

/-- Never ends, so what follows is dead. -/
def spin : Body where
  items := [.label ⟨0⟩, .branch (.goto ⟨0⟩), .branch (.ret .void)]
  handlers := []
  localVariables := []
  nextLabel := ⟨1⟩

def spinContext : AssemblyContext := ⟨⟨.object, .clinit, ⟨[], none⟩, true⟩, .flat, true⟩

def spinCode : CodeAttribute where
  maxStack := 1
  maxLocals := 0
  code := [0xA7, 0, 0, 0xBF]
  exceptions := []
  attributes := [⟨3, [0, 2, 0, 0x42, 7, 0, 2]⟩]

def spinTyping : Typing := ⟨#[some ⟨[], []⟩, some ⟨[], []⟩, none], 0, 0⟩

def spinParts : List Part :=
  [⟨.label ⟨0⟩, true, none⟩, ⟨.branch (.goto ⟨0⟩), true, none⟩, ⟨.branch (.ret .void), false, none⟩]

def spinLayout : Layout :=
  ⟨.ofPieces (spinParts.map Part.piece) [false, false, false], #[false, false, false]⟩

private theorem spin_typed : spin.inferFrames spinContext.method .flat = .ok spinTyping := by
  cbv

private theorem spin_laid :
    Layout.ofPieces spinTyping.isReachable (spinParts.map Part.piece) = .ok spinLayout := by
  cbv

private theorem spin_sources : frameSources (place spinLayout spinParts)
    (deadSpans (place spinLayout spinParts)) [0] = [(0, .item 1), (3, .dead)] := by
  rw [frameSources_eq]
  cbv

private theorem spin_bytes : codeBytes spinLayout (deadSpans (place spinLayout spinParts))
    (place spinLayout spinParts) = .ok spinCode.code := by
  have dead : deadSpans (place spinLayout spinParts) = [⟨3, 4⟩] := by cbv
  have placed : place spinLayout spinParts = [⟨⟨.label ⟨0⟩, true, none⟩, 0, 0, false⟩,
      ⟨⟨.branch (.goto ⟨0⟩), true, none⟩, 1, 0, false⟩,
      ⟨⟨.branch (.ret .void), false, none⟩, 2, 3, false⟩] := by cbv
  have last : partBytes spinLayout (Std.HashSet.ofList [4])
      ⟨⟨.branch (.ret .void), false, none⟩, 2, 3, false⟩ = .ok [0xBF] :=
    partBytes_deadLast rfl (by decide)
  rw [dead, placed, codeBytes]
  simp only [List.map_cons, List.map_nil, List.mapM_cons, last]
  cbv

/-- The class of all exceptions is added to an empty pool. -/
theorem storedType_throwable (itemOffset : Nat → UInt16) : ∃ after,
    Yields (PoolM.storedType itemOffset (VType.ofClass .throwable)) .empty (.object 2) after ∧
      after.firstSlot[Constant.utf8 "StackMapTable"]? = none ∧ after.table.size = 3 := by
  have fresh (constant : Constant) : Pool.empty.firstSlot[constant]? = none := by
    simp [Pool.empty]
  obtain ⟨named, name, namedTable, namedSlot⟩ :=
    PoolM.yields_intern_new (fresh (.utf8 "java/lang/Throwable")) (by decide)
  obtain ⟨after, reference, table, slot⟩ := PoolM.yields_intern_new
    ((namedSlot (.classRef 1) (by decide)).trans (fresh _)) (by rw [namedTable]; decide)
  rw [namedTable] at reference table
  refine ⟨after, PoolM.yields_map.mpr ⟨2, PoolM.yields_bind.mpr ⟨1, named, name, reference⟩, rfl⟩,
    ?_, by rw [table]; rfl⟩
  exact (slot _ (by decide)).trans ((namedSlot _ (by decide)).trans (fresh _))

private theorem spin_mapped (layout : Layout) : ∃ after,
    Yields (stackMap spinContext spinTyping layout [(0, .item 1), (3, .dead)]) .empty
      ⟨3, [0, 2, 0, 0x42, 7, 0, 2]⟩ after := by
  obtain ⟨pool, thrown, new, size⟩ := storedType_throwable fun position =>
    UInt16.ofNat (layout.offsets.getD position 0)
  obtain ⟨after, name, -⟩ := PoolM.yields_intern_new new (by rw [size]; decide)
  rw [size] at name
  refine ⟨after, PoolM.yields_bind.mpr ⟨⟨[], []⟩, .empty, by rfl, ?_⟩⟩
  refine PoolM.yields_bind.mpr ⟨.object 2, pool, thrown, ?_⟩
  refine PoolM.yields_bind.mpr ⟨[.same 0, .sameOneStack 2 (.object 2)], pool, by rfl, ?_⟩
  exact PoolM.yields_bind.mpr ⟨3, after, name, PoolM.yields_pure.mpr ⟨rfl, rfl⟩⟩

theorem spin_assembled : ∃ after, Yields (spin.assemble spinContext) .empty spinCode after := by
  obtain ⟨after, mapped⟩ := spin_mapped spinLayout
  refine ⟨after, ?_⟩
  refine PoolM.yields_bind.mpr ⟨spinTyping, .empty, PoolM.yields_lift.mpr ⟨spin_typed, rfl⟩, ?_⟩
  refine PoolM.yields_bind.mpr ⟨spinParts, .empty, by cbv, ?_⟩
  refine PoolM.yields_bind.mpr ⟨spinLayout, .empty, PoolM.yields_lift.mpr ⟨spin_laid, rfl⟩, ?_⟩
  rw [if_neg (by cbv)]
  refine PoolM.yields_bind.mpr ⟨[0], .empty, PoolM.yields_lift.mpr ⟨by cbv, rfl⟩, ?_⟩
  refine PoolM.yields_bind.mpr ⟨[], .empty, by cbv, ?_⟩
  refine PoolM.yields_bind.mpr ⟨_, .empty, PoolM.yields_lift.mpr ⟨spin_bytes, rfl⟩, ?_⟩
  refine PoolM.yields_bind.mpr ⟨[], .empty, by cbv, ?_⟩
  refine PoolM.yields_bind.mpr ⟨[], .empty, by cbv, ?_⟩
  refine PoolM.yields_bind.mpr ⟨[], .empty, by cbv, ?_⟩
  refine PoolM.yields_bind.mpr ⟨[], .empty, by cbv, ?_⟩
  have sources : frameSources (place spinLayout spinParts) (deadSpans (place spinLayout spinParts))
      ([0] ++ ([] : List (List ExceptionEntry × List Nat)).flatMap Prod.snd) =
        [(0, .item 1), (3, .dead)] := spin_sources
  rw [sources]
  exact PoolM.yields_bind.mpr ⟨_, after, PoolM.yields_map.mpr ⟨_, mapped, rfl⟩,
    PoolM.yields_pure.mpr ⟨by cbv, rfl⟩⟩

theorem spin_mapsAll : spinContext.emitStackMap = true ∧ ∃ after,
    Yields (spin.assemble spinContext) .empty spinCode after ∧
    ∃ starts widened listing lowered entries, starts 0 = 0 ∧
      starts spin.items.length = spinCode.code.length ∧
      spin.EmitsFrom starts widened 0 spin.items .empty listing lowered ∧
      Bytecode.Written 0 listing spinCode.code ∧
      (entries = [] ∨ ∃ map ∈ spinCode.attributes,
        StackMapEntry.AreStored entries .empty after map) ∧
      spin.MapsAll starts listing spinCode.exceptions (StackMapEntry.offsetsFrom none entries) ∧
      ∃ entry, listing.getLast? = some entry ∧ entry.2.fallsThrough = false := by
  obtain ⟨after, done⟩ := spin_assembled
  exact ⟨rfl, after, done, spin.assemble_mapsAll rfl done⟩

end ClassWeave
