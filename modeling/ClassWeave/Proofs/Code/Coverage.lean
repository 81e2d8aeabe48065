import ClassWeave.Proofs.Code.RoundTrip
import ClassWeave.Proofs.Code.StackMap

/-!
# Exception coverage

Ranges of handlers are split around dead code, and dropped when nothing is left of them. An
instruction that can be reached is still in the ranges of just those handlers that are in charge of
it, and they come in the same order.
-/

namespace ClassWeave

open PoolM (Yields YieldsEach)

namespace Assembly

/-- The entry for a span. -/
def Span.entry (target : Nat) (catchType : ConstantIndex) (span : Span) : ExceptionEntry :=
  ⟨UInt16.ofNat span.start, UInt16.ofNat span.stop, UInt16.ofNat target, catchType⟩

end Assembly

/-- Is the offset in the range of the entry? -/
def ExceptionEntry.Holds (entry : ExceptionEntry) (offset : Nat) : Prop :=
  entry.start.toNat ≤ offset ∧ offset < entry.stop.toNat

instance (entry : ExceptionEntry) (offset : Nat) : Decidable (entry.Holds offset) :=
  inferInstanceAs (Decidable (_ ∧ _))

namespace Body

/-- An entry leads to where a handler is, for exceptions of the same class. -/
structure ActsFor (body : Body) (starts : Nat → Nat) (constants : ConstantTable) (handler : Handler)
    (entry : ExceptionEntry) : Prop where
  target : body.LeadsTo starts handler.target entry.handler.toNat
  catchType : Disassembly.Catches constants entry.catchType handler.catchType

/-- The range of an entry ends at instructions, holds some bytes but none of dead code, and leads to
code that can be reached. -/
structure Guards (body : Body) (starts : Nat → Nat) (entry : ExceptionEntry) : Prop where
  nonempty : entry.start.toNat < entry.stop.toNat
  start : ∃ code, body.IsCodeAt code ∧ starts code = entry.start.toNat
  stop : (∃ code, body.IsCodeAt code ∧ starts code = entry.stop.toNat) ∨
    starts body.items.length = entry.stop.toNat
  live {position offset : Nat} : body.IsCodeAt position → ¬ body.Reachable position →
    starts position ≤ offset → offset < starts (position + 1) → ¬ entry.Holds offset
  handler : body.StartsLive starts entry.handler.toNat

open Classical in
/-- The entries that hold an instruction that can be reached are for those of the handlers that are
in charge of it, in the same order. -/
structure KeepsCoverage (body : Body) (starts : Nat → Nat) (constants : ConstantTable)
    (handlers : List Handler) (entries : List ExceptionEntry) : Prop where
  covered {position : Nat} : body.IsCodeAt position → body.Reachable position →
    List.Forall₂ (body.ActsFor starts constants)
      (handlers.filter fun handler => decide (body.Protects handler position))
      (entries.filter fun entry => entry.Holds (starts position))
  guards : ∀ entry ∈ entries, body.Guards starts entry

variable {body : Body} {starts : Nat → Nat}

theorem KeepsCoverage.nil {constants : ConstantTable} : body.KeepsCoverage starts constants [] [] :=
  ⟨fun _ _ => .nil, by simp⟩

theorem KeepsCoverage.append {constants : ConstantTable} {first second : List Handler}
    {firstEntries secondEntries : List ExceptionEntry}
    (keeps : body.KeepsCoverage starts constants first firstEntries)
    (keepsToo : body.KeepsCoverage starts constants second secondEntries) :
    body.KeepsCoverage starts constants (first ++ second) (firstEntries ++ secondEntries) where
  covered isCode path := by
    rw [List.filter_append, List.filter_append]
    exact List.rel_append (keeps.covered isCode path) (keepsToo.covered isCode path)
  guards := List.forall_mem_append.mpr ⟨keeps.guards, keepsToo.guards⟩

theorem KeepsCoverage.flatMap {α : Type} {constants : ConstantTable} {handlers : List Handler}
    {results : List α} {entries : α → List ExceptionEntry}
    (each : List.Forall₂ (fun handler result =>
      body.KeepsCoverage starts constants [handler] (entries result)) handlers results) :
    body.KeepsCoverage starts constants handlers (results.flatMap entries) := by
  induction each with
  | nil => exact .nil
  | cons first _ ih => exact first.append ih

/-- Every item starts where an instruction does, or at the end of the code. -/
theorem Laid.boundary (laid : body.Laid starts) {position : Nat}
    (inside : position ≤ body.items.length) :
    (∃ code, body.IsCodeAt code ∧ starts code = starts position) ∨
      starts body.items.length = starts position := by
  by_cases code : ∃ later, position ≤ later ∧ body.IsCodeAt later
  · obtain ⟨later, ahead, isCode⟩ := code
    obtain ⟨first, isFirst, -⟩ := exists_firstCode ahead isCode
    exact .inl ⟨first, isFirst.isCode, laid.starts_firstCode isFirst⟩
  · right
    by_contra apart
    have below : starts position < starts body.items.length :=
      Nat.lt_of_le_of_ne (laid.mono inside (Nat.le_refl _)) (Ne.symm apart)
    obtain ⟨holding, isCode, -, ended⟩ :=
      laid.exists_holding (Nat.le_refl _) (laid.mono (Nat.zero_le _) inside) below
    have earlier : holding < position := by
      by_contra later
      exact code ⟨holding, Nat.le_of_not_lt later, isCode⟩
    exact absurd ended (Nat.not_lt.mpr (laid.mono earlier inside))

end Body

namespace Assembly.Trace.Explains

variable {trace : Trace} {body : Body} {context : AssemblyContext} {before after : Pool}
  {code : CodeAttribute} (explains : trace.Explains body context before code after)

include explains

/-- What a handler is left in charge of holds an instruction that can be reached exactly if the
handler is in charge of it. -/
theorem covered_iff_protects {handler : Handler} (member : handler ∈ body.handlers) (span : Span)
    (startFound : offsetOf trace.layout handler.start = .ok span.start)
    (stopFound : offsetOf trace.layout handler.stop = .ok span.stop) {position : Nat}
    (isCode : body.IsCodeAt position) (path : body.Reachable position) :
    Covered (liveSpans span trace.dead) (trace.start position) ↔
      body.Protects handler position := by
  rw [covered_liveSpans explains.dead_runs, and_iff_left (explains.start_not_dead isCode path),
    explains.holds_iff_protects member startFound stopFound isCode]

/-- Runs of dead code start and stop where items do. -/
theorem dead_bounds {run : Span} (member : run ∈ trace.dead) :
    (∃ position ≤ body.items.length, trace.start position = run.start) ∧
      ∃ position ≤ body.items.length, trace.start position = run.stop := by
  have filled := explains.dead_runs.nonempty run member
  obtain ⟨first, firstCode, -, starts⟩ := (explains.mem_deadOffsets run.start).mp
    ((explains.dead_runs.start_iff run.start).mp (List.mem_map_of_mem member)).1
  have stops : run.stop - 1 + 1 = run.stop := Nat.sub_add_cancel (Nat.one_le_of_lt filled)
  have isStop : run.stop - 1 + 1 ∈ trace.dead.map Span.stop := by
    rw [stops]
    exact List.mem_map_of_mem member
  obtain ⟨last, lastCode, dead, ends⟩ := (explains.mem_deadOffsets (run.stop - 1)).mp
    ((explains.dead_runs.stop_iff (run.stop - 1)).mp isStop).1
  refine ⟨⟨first, firstCode.inside.le, starts⟩, last + 1, lastCode.inside, ?_⟩
  rw [explains.start_next_dead lastCode dead, ends, stops]

/-- What a handler is left in charge of starts and stops where items do. -/
theorem piece_bounds {handler : Handler} (member : handler ∈ body.handlers) {span piece : Span}
    (startFound : offsetOf trace.layout handler.start = .ok span.start)
    (stopFound : offsetOf trace.layout handler.stop = .ok span.stop)
    (isPiece : piece ∈ liveSpans span trace.dead) :
    piece.start < piece.stop ∧
      (∃ position ≤ body.items.length, trace.start position = piece.start) ∧
      ∃ position ≤ body.items.length, trace.start position = piece.stop := by
  obtain ⟨first, last, target, startPlaced, stopPlaced, -⟩ :=
    explains.closed.handlers handler member
  obtain ⟨nonempty, start, stop⟩ := pieceOf_liveSpans isPiece
  refine ⟨nonempty, ?_, ?_⟩
  · rcases start with same | ⟨run, isRun, same⟩
    · have found := Except.ok.inj ((explains.offsetOf_label startPlaced).symm.trans startFound)
      exact ⟨first, (List.getElem?_eq_some_iff.mp startPlaced).1.le, found.trans same.symm⟩
    · exact same ▸ (explains.dead_bounds isRun).2
  · rcases stop with same | ⟨run, isRun, same⟩
    · have found := Except.ok.inj ((explains.offsetOf_label stopPlaced).symm.trans stopFound)
      exact ⟨last, (List.getElem?_eq_some_iff.mp stopPlaced).1.le, found.trans same.symm⟩
    · exact same ▸ (explains.dead_bounds isRun).1

/-- An offset of an item can be counted in 16 bits. -/
theorem start_fits {position : Nat} (inside : position ≤ body.items.length) :
    trace.start position < 65536 := by
  have below := explains.laidOut.mono inside (Nat.le_refl _)
  rw [explains.start_length] at below
  exact Nat.lt_succ_of_le (below.trans explains.short)

/-- A handler that is left in charge of something leads to code that can be reached. -/
theorem handler_leads {handler : Handler} (member : handler ∈ body.handlers) {span piece : Span}
    {target : Nat} (startFound : offsetOf trace.layout handler.start = .ok span.start)
    (stopFound : offsetOf trace.layout handler.stop = .ok span.stop)
    (targetFound : offsetOf trace.layout handler.target = .ok target)
    (isPiece : piece ∈ liveSpans span trace.dead) :
    body.LeadsTo trace.start handler.target target ∧ body.StartsLive trace.start target := by
  obtain ⟨position, path, covered⟩ := (explains.protects_iff member startFound stopFound).mp
    (List.isEmpty_eq_false_iff_exists_mem.mpr ⟨piece, isPiece⟩)
  obtain ⟨_, _, place, -, -, placed⟩ := explains.closed.handlers handler member
  cases (explains.offsetOf_label placed).symm.trans targetFound
  have reached := path.step (.exception covered placed)
  obtain ⟨code, first, reachable⟩ := explains.closed.firstCode reached
  have starts := explains.laidOut.starts_firstCode first
  exact ⟨⟨place, code, placed, first, starts⟩, code, first.isCode, reachable, starts⟩

/-- The entry for a piece of a handler's range. -/
theorem entry_guards {handler : Handler} (member : handler ∈ body.handlers) {span piece : Span}
    {target : Nat} (catchType : ConstantIndex)
    (startFound : offsetOf trace.layout handler.start = .ok span.start)
    (stopFound : offsetOf trace.layout handler.stop = .ok span.stop)
    (targetFound : offsetOf trace.layout handler.target = .ok target)
    (isPiece : piece ∈ liveSpans span trace.dead) :
    (∀ offset, (piece.entry target catchType).Holds offset ↔ piece.Holds offset) ∧
      (piece.entry target catchType).handler.toNat = target ∧
      body.Guards trace.start (piece.entry target catchType) := by
  obtain ⟨nonempty, ⟨first, firstInside, start⟩, last, lastInside, stop⟩ :=
    explains.piece_bounds member startFound stopFound isPiece
  obtain ⟨-, place, placeCode, placeLive, starts⟩ :=
    explains.handler_leads member startFound stopFound targetFound isPiece
  have startSame : (piece.entry target catchType).start.toNat = piece.start :=
    UInt16.toNat_ofNat_of_lt' (start ▸ explains.start_fits firstInside)
  have stopSame : (piece.entry target catchType).stop.toNat = piece.stop :=
    UInt16.toNat_ofNat_of_lt' (stop ▸ explains.start_fits lastInside)
  have targetSame : (piece.entry target catchType).handler.toNat = target :=
    UInt16.toNat_ofNat_of_lt' (starts ▸ explains.start_fits placeCode.inside.le)
  have holds (offset : Nat) :
      (piece.entry target catchType).Holds offset ↔ piece.Holds offset := by
    rw [ExceptionEntry.Holds, Span.Holds, startSame, stopSame]
  refine ⟨holds, targetSame, ⟨by rwa [startSame, stopSame], ?_, ?_, ?_, ?_⟩⟩
  · rw [startSame, ← start]
    refine (explains.laidOut.boundary firstInside).resolve_right fun atEnd => ?_
    have below := explains.laidOut.mono lastInside (Nat.le_refl _)
    omega
  · rw [stopSame, ← stop]
    exact explains.laidOut.boundary lastInside
  · intro position offset isCode dead above below held
    have next := explains.start_next_dead isCode dead
    have isDead : offset ∈ trace.deadOffsets :=
      (explains.mem_deadOffsets offset).mpr ⟨position, isCode, dead, by omega⟩
    exact ((covered_liveSpans explains.dead_runs span offset).mp
      ⟨piece, isPiece, (holds offset).mp held⟩).2 isDead
  · rw [targetSame]
    exact ⟨place, placeCode, placeLive, starts⟩

/-- Of the entries of a handler one holds an instruction that it is in charge of, and none any
other. -/
theorem handler_keepsCoverage {handler : Handler} (member : handler ∈ body.handlers)
    {result : List ExceptionEntry × List Nat} {earlier later : Pool} {constants : ConstantTable}
    (sound : earlier.Sound) (aligned : later.table.Aligned) (kept : constants.Extends later.table)
    (done : Yields (exceptionEntries trace.layout trace.dead handler) earlier result later) :
    body.KeepsCoverage trace.start constants [handler] result.1 := by
  obtain ⟨start, stop, target, catchType, startFound, stopFound, targetFound, caught, entries, -⟩ :=
    exceptionEntries_cases done
  have entries : result.1 =
      (liveSpans ⟨start, stop⟩ trace.dead).map (Span.entry target catchType) :=
    entries
  have guards (piece : Span) (isPiece : piece ∈ liveSpans ⟨start, stop⟩ trace.dead) :=
    explains.entry_guards member catchType startFound stopFound targetFound isPiece
  rw [entries]
  refine ⟨fun {position} isCode path => ?_, fun entry isEntry => ?_⟩
  · have same : ∀ piece ∈ liveSpans ⟨start, stop⟩ trace.dead,
        ((fun entry : ExceptionEntry => decide (entry.Holds (trace.start position))) ∘
          Span.entry target catchType) piece = decide (piece.Holds (trace.start position)) :=
      fun piece isPiece => decide_eq_decide.mpr ((guards piece isPiece).1 _)
    have inCharge := explains.covered_iff_protects member ⟨start, stop⟩ startFound stopFound
      isCode path
    rw [List.filter_map, List.filter_congr same]
    rcases filter_holds (liveSpans_apart explains.dead_runs ⟨start, stop⟩) (trace.start position)
      with ⟨uncovered, none⟩ | ⟨covered, piece, isPiece, one⟩
    · have free : ¬ body.Protects handler position := fun inside => uncovered (inCharge.mpr inside)
      rw [none, List.filter_cons_of_neg (by simpa using free)]
      exact .nil
    · obtain ⟨-, leads, -⟩ := guards piece isPiece
      rw [one, List.filter_cons_of_pos (by simpa using inCharge.mp covered)]
      refine .cons ⟨?_, (Disassembly.catches_of_yields sound aligned caught).stable kept⟩ .nil
      rw [leads]
      exact (explains.handler_leads member startFound stopFound targetFound isPiece).1
  · obtain ⟨piece, isPiece, rfl⟩ := List.mem_map.mp isEntry
    exact (guards piece isPiece).2.2

/-- The entries of each handler stand together, in the place of the handler. -/
theorem keepsCoverage (sound : trace.lowered.Sound) (aligned : trace.lowered.table.Aligned) :
    body.KeepsCoverage trace.start after.table body.handlers code.exceptions := by
  have grown := explains.attributes.grown
  have each := (List.forall₂_and_left (p := (· ∈ body.handlers)) _ _).mpr
    ⟨fun _ => id, (explains.exceptions.forall₂ (exceptionEntries_grows _ _)).2⟩
  rw [explains.table]
  refine .flatMap (each.imp ?_)
  rintro handler result ⟨member, earlier, later, reached, done, finished⟩
  exact explains.handler_keepsCoverage member (reached.sound sound)
    (((exceptionEntries_grows _ _ _).yields done).aligned (reached.aligned aligned))
    (finished.trans grown).kept done

end Assembly.Trace.Explains

/-- The exception table of a body does for its code what the handlers do for the body. -/
theorem Body.assemble_keepsCoverage {body : Body} {context : AssemblyContext} {before after : Pool}
    {code : CodeAttribute} (built : before.Built)
    (done : Yields (body.assemble context) before code after) :
    ∃ starts widened listing lowered, starts 0 = 0 ∧ starts body.items.length = code.code.length ∧
      body.EmitsFrom starts widened 0 body.items before listing lowered ∧
      Bytecode.Written 0 listing code.code ∧
      (∀ position, body.IsCodeAt position → starts position ∈ listing.map Prod.fst) ∧
      body.KeepsCoverage starts after.table body.handlers code.exceptions := by
  obtain ⟨trace, explains⟩ := Assembly.explained done
  obtain ⟨stop, listing, emitsFrom, written⟩ := explains.emitsFrom
  have grown := emitsFrom.grown
  exact ⟨trace.start, trace.isWide, listing, trace.lowered, explains.start_zero, stop, emitsFrom,
    written, fun position isCode => emitsFrom.covers List.drop_zero isCode (Nat.zero_le _),
    explains.keepsCoverage (grown.sound built.sound) (grown.aligned built.aligned)⟩

/-- Never ends, so what comes between the two jumps is dead, though a handler is in charge of it. -/
def pingPong : Body where
  items := [.label ⟨0⟩, .branch (.goto ⟨1⟩), .branch (.ret .void), .label ⟨1⟩, .branch (.goto ⟨0⟩),
    .label ⟨2⟩, .branch .athrow]
  handlers := [⟨⟨0⟩, ⟨2⟩, ⟨2⟩, none⟩]
  localVariables := []
  nextLabel := ⟨3⟩

def pingPongContext : AssemblyContext := ⟨⟨.object, .clinit, ⟨[], none⟩, true⟩, .flat, false⟩

def pingPongCode : CodeAttribute where
  maxStack := 1
  maxLocals := 0
  code := [0xA7, 0, 4, 0xBF, 0xA7, 0xFF, 0xFC, 0xBF]
  exceptions := [⟨0, 3, 7, 0⟩, ⟨4, 7, 7, 0⟩]
  attributes := []

def pingPongTyping : Typing :=
  let frame : Option VFrame := some ⟨[], []⟩
  let thrown : Option VFrame := some ⟨[], [VType.ofClass .throwable]⟩
  ⟨#[frame, frame, none, frame, frame, thrown, thrown], 1, 0⟩

def pingPongParts : List Assembly.Part :=
  pingPong.items.zipIdx.map fun (item, position) => ⟨item, position != 2, none⟩

def pingPongLayout : Layout :=
  let narrow := List.replicate 7 false
  ⟨.ofPieces (pingPongParts.map Assembly.Part.piece) narrow, narrow.toArray⟩

open Assembly

private theorem pingPong_typed :
    pingPong.inferFrames pingPongContext.method .flat = .ok pingPongTyping := by
  cbv

private theorem pingPong_laid : Layout.ofPieces pingPongTyping.isReachable
    (pingPongParts.map Part.piece) = .ok pingPongLayout := by
  cbv

private theorem pingPong_bytes :
    codeBytes pingPongLayout (deadSpans (place pingPongLayout pingPongParts))
      (place pingPongLayout pingPongParts) = .ok pingPongCode.code := by
  have dead : deadSpans (place pingPongLayout pingPongParts) = [⟨3, 4⟩] := by cbv
  have placed : place pingPongLayout pingPongParts = [⟨⟨.label ⟨0⟩, true, none⟩, 0, 0, false⟩,
      ⟨⟨.branch (.goto ⟨1⟩), true, none⟩, 1, 0, false⟩,
      ⟨⟨.branch (.ret .void), false, none⟩, 2, 3, false⟩,
      ⟨⟨.label ⟨1⟩, true, none⟩, 3, 4, false⟩, ⟨⟨.branch (.goto ⟨0⟩), true, none⟩, 4, 4, false⟩,
      ⟨⟨.label ⟨2⟩, true, none⟩, 5, 7, false⟩, ⟨⟨.branch .athrow, true, none⟩, 6, 7, false⟩] := by
    cbv
  have last : partBytes pingPongLayout (Std.HashSet.ofList [4])
      ⟨⟨.branch (.ret .void), false, none⟩, 2, 3, false⟩ = .ok [0xBF] :=
    partBytes_deadLast rfl (by decide)
  rw [dead, placed, codeBytes]
  simp only [List.map_cons, List.map_nil, List.mapM_cons, last]
  cbv

theorem pingPong_assembled :
    Yields (pingPong.assemble pingPongContext) .empty pingPongCode .empty := by
  refine PoolM.yields_bind.mpr
    ⟨pingPongTyping, .empty, PoolM.yields_lift.mpr ⟨pingPong_typed, rfl⟩, ?_⟩
  refine PoolM.yields_bind.mpr ⟨pingPongParts, .empty, by cbv, ?_⟩
  refine PoolM.yields_bind.mpr
    ⟨pingPongLayout, .empty, PoolM.yields_lift.mpr ⟨pingPong_laid, rfl⟩, ?_⟩
  rw [if_neg (by cbv)]
  refine PoolM.yields_bind.mpr ⟨[4, 0], .empty, PoolM.yields_lift.mpr ⟨by cbv, rfl⟩, ?_⟩
  refine PoolM.yields_bind.mpr ⟨[(pingPongCode.exceptions, [7])], .empty, by cbv, ?_⟩
  refine PoolM.yields_bind.mpr ⟨_, .empty, PoolM.yields_lift.mpr ⟨pingPong_bytes, rfl⟩, ?_⟩
  refine PoolM.yields_bind.mpr ⟨[], .empty, by cbv, ?_⟩
  refine PoolM.yields_bind.mpr ⟨[], .empty, by cbv, ?_⟩
  refine PoolM.yields_bind.mpr ⟨[], .empty, by cbv, ?_⟩
  refine PoolM.yields_bind.mpr ⟨[], .empty, by cbv, ?_⟩
  exact PoolM.yields_pure.mpr ⟨by cbv, rfl⟩

theorem pingPong_keepsCoverage : Pool.empty.Built ∧
    Yields (pingPong.assemble pingPongContext) .empty pingPongCode .empty ∧
    ∃ starts widened listing lowered, starts 0 = 0 ∧
      starts pingPong.items.length = pingPongCode.code.length ∧
      pingPong.EmitsFrom starts widened 0 pingPong.items .empty listing lowered ∧
      Bytecode.Written 0 listing pingPongCode.code ∧
      (∀ position, pingPong.IsCodeAt position → starts position ∈ listing.map Prod.fst) ∧
      pingPong.KeepsCoverage starts Pool.empty.table pingPong.handlers pingPongCode.exceptions := by
  have built : (Pool.ofTable (.ofList [])).Built := .ofList (by decide)
  exact ⟨built, pingPong_assembled, Body.assemble_keepsCoverage built pingPong_assembled⟩

end ClassWeave
