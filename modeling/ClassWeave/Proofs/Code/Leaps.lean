import ClassWeave.Proofs.Code.Assembly
import ClassWeave.Proofs.Code.Entries

/-!
# Where paths meet

Control gets to an instruction by falling through, by a jump or by an exception. Assembly takes note
of all offsets that jumps and exceptions that can come about lead to, so what comes after code that
does not fall through is always one of these, or the start of dead code.
-/

namespace ClassWeave

open PoolM (Yields YieldsEach)

namespace Assembly

/-- The slot of the class that a handler catches; slot 0 stands for all. -/
def catchSlot : Option BinaryName → PoolM ConstantIndex
  | none => pure 0
  | some name => PoolM.binaryName name

theorem exceptionEntries_cases {layout : Layout} {dead : List Span} {handler : Handler}
    {before after : Pool} {result : List ExceptionEntry × List Nat}
    (done : Yields (exceptionEntries layout dead handler) before result after) :
    ∃ start stop target catchType, offsetOf layout handler.start = .ok start ∧
      offsetOf layout handler.stop = .ok stop ∧ offsetOf layout handler.target = .ok target ∧
      Yields (catchSlot handler.catchType) before catchType after ∧
      result.1 = (liveSpans ⟨start, stop⟩ dead).map (fun span =>
        ⟨UInt16.ofNat span.start, UInt16.ofNat span.stop, UInt16.ofNat target, catchType⟩) ∧
      result.2 = if (liveSpans ⟨start, stop⟩ dead).isEmpty then [] else [target] := by
  obtain ⟨start, _, ran, done⟩ := PoolM.yields_bind.mp done
  obtain ⟨startFound, rfl⟩ := PoolM.yields_lift.mp ran
  obtain ⟨stop, _, ran, done⟩ := PoolM.yields_bind.mp done
  obtain ⟨stopFound, rfl⟩ := PoolM.yields_lift.mp ran
  obtain ⟨target, _, ran, done⟩ := PoolM.yields_bind.mp done
  obtain ⟨targetFound, rfl⟩ := PoolM.yields_lift.mp ran
  split at done
  · rename_i all
    obtain ⟨catchType, _, caught, done⟩ := PoolM.yields_bind.mp done
    obtain ⟨rfl, rfl⟩ := PoolM.yields_pure.mp done
    exact ⟨start, stop, target, catchType, startFound, stopFound, targetFound,
      by rwa [all], rfl, rfl⟩
  · rename_i name one
    obtain ⟨catchType, _, caught, done⟩ := PoolM.yields_bind.mp done
    obtain ⟨rfl, rfl⟩ := PoolM.yields_pure.mp done
    exact ⟨start, stop, target, catchType, startFound, stopFound, targetFound,
      by rwa [one], rfl, rfl⟩

theorem jumpOffsetsFrom_cases {layout : Layout} {part : Placed} {offsets : List Nat}
    (done : jumpOffsetsFrom layout part = .ok offsets) :
    (∃ jump targets, part.item = .branch jump ∧ part.isLive = true ∧
      jump.targets.mapM (offsetOf layout) = .ok targets ∧
      offsets = targets ++ if part.widened && jump.fallsThrough then [part.offset + 8] else []) ∨
    (offsets = [] ∧ ∀ jump, part.item = .branch jump → part.isLive = false) := by
  unfold jumpOffsetsFrom at done
  split at done
  · rename_i jump isJump
    split at done
    · rename_i live
      obtain ⟨targets, listed, same⟩ := Outcome.bind_ok.mp done
      exact .inl ⟨jump, targets, isJump, live, listed, (Outcome.pure_ok.mp same).symm⟩
    · rename_i dead
      cases done
      exact .inr ⟨rfl, fun _ _ => Bool.eq_false_iff.mpr dead⟩
  · rename_i other
    cases done
    exact .inr ⟨rfl, fun jump isJump => (other jump isJump).elim⟩

namespace Trace

variable {trace : Trace} {body : Body} {context : AssemblyContext} {before after : Pool}
  {code : CodeAttribute}

/-- The offsets that jumps and exceptions lead to. -/
def leaps (trace : Trace) : List Nat := trace.jumps ++ trace.exceptions.flatMap Prod.snd

/-- The offsets that a stack map has entries for. -/
def mapped (trace : Trace) : List Nat := trace.sources.map Prod.fst

namespace Explains

variable (explains : trace.Explains body context before code after)

include explains

theorem mem_jumps {position : Nat} {jump : Branch Label} (path : body.Reachable position)
    (found : body.items[position]? = some (.branch jump)) :
    (∀ label ∈ jump.targets, ∀ target, body.LabelAt label target →
      trace.start target ∈ trace.jumps) ∧
    (trace.isWide position = true → jump.fallsThrough = true →
      trace.start position + 8 ∈ trace.jumps) := by
  obtain ⟨made, _, _, madeFound, -⟩ := explains.part_at found
  obtain ⟨itemFound, live⟩ := explains.item_at madeFound
  rw [(explains.isReachable_iff position).mpr path] at live
  have isJump : made.item = .branch jump := Option.some.inj (itemFound.symm.trans found)
  obtain ⟨lists, listsFound, same⟩ := Outcome.map_ok.mp explains.jumps
  obtain ⟨offsets, member, offsetsFound⟩ :=
    Outcome.mapM_total listsFound (explains.mem_placed.mpr ⟨position, made, madeFound, rfl⟩)
  have gathered {offset : Nat} (here : offset ∈ offsets) : offset ∈ trace.jumps :=
    same ▸ List.mem_flatten.mpr ⟨offsets, member, here⟩
  rcases jumpOffsetsFrom_cases offsetsFound with ⟨other, targets, isOther, -, listed, rfl⟩ | ⟨-, dead⟩
  · simp only [isJump, Item.branch.injEq] at isOther
    subst isOther
    constructor
    · intro label isTarget target placed
      refine gathered (List.mem_append_left _ ((Outcome.mem_mapM listed).mpr ?_))
      exact ⟨label, isTarget, explains.offsetOf_label placed⟩
    · intro wide falls
      refine gathered (List.mem_append_right _ ?_)
      simp [wide, falls]
  · rw [dead jump isJump] at live
    cases live

/-- Code that cannot be reached takes one byte for each instruction. -/
theorem start_next_dead {position : Nat} (isCode : body.IsCodeAt position)
    (dead : ¬ body.Reachable position) : trace.start (position + 1) = trace.start position + 1 := by
  obtain ⟨item, found, executed⟩ := isCode
  obtain ⟨made, _, _, madeFound, done⟩ := explains.part_at found
  have unreachable : trace.typing.isReachable position = false := by
    rwa [← Bool.not_eq_true, explains.isReachable_iff]
  rw [explains.start_next madeFound]
  rcases part_cases done with ⟨_, _, -, live, -⟩ | ⟨rfl, -⟩
  · rw [unreachable] at live
    cases live
  · rw [unreachable]
    cases item with
    | label | line => cases executed
    | instruction | branch => rfl

/-- A byte of the code that is not of dead code belongs to an instruction that can be reached. -/
theorem exists_live {offset : Nat} (inside : offset < trace.start body.items.length)
    (live : offset ∉ trace.deadOffsets) :
    ∃ position, body.IsCodeAt position ∧ body.Reachable position ∧
      trace.start position ≤ offset ∧ offset < trace.start (position + 1) := by
  have above : trace.start 0 ≤ offset := by
    rw [explains.start_zero]
    exact Nat.zero_le offset
  obtain ⟨position, isCode, above, below⟩ :=
    explains.laidOut.exists_holding (Nat.le_refl _) above inside
  refine ⟨position, isCode, ?_, above, below⟩
  by_contra dead
  have next := explains.start_next_dead isCode dead
  exact live ((explains.mem_deadOffsets offset).mpr ⟨position, isCode, dead, by omega⟩)

/-- The first byte of an instruction that can be reached is not of dead code. -/
theorem start_not_dead {position : Nat} (isCode : body.IsCodeAt position)
    (path : body.Reachable position) : trace.start position ∉ trace.deadOffsets := by
  rw [explains.mem_deadOffsets]
  rintro ⟨other, otherCode, dead, same⟩
  cases explains.laidOut.code_unique otherCode isCode same
  exact dead path

/-- The bytes between the labels of a handler are those of the code that it is in charge of. -/
theorem holds_iff_protects {handler : Handler} (member : handler ∈ body.handlers) {span : Span}
    (startFound : offsetOf trace.layout handler.start = .ok span.start)
    (stopFound : offsetOf trace.layout handler.stop = .ok span.stop) {position : Nat}
    (isCode : body.IsCodeAt position) :
    span.Holds (trace.start position) ↔ body.Protects handler position := by
  obtain ⟨first, last, target, startPlaced, stopPlaced, -⟩ :=
    explains.closed.handlers handler member
  have startSame := Except.ok.inj ((explains.offsetOf_label startPlaced).symm.trans startFound)
  have stopSame := Except.ok.inj ((explains.offsetOf_label stopPlaced).symm.trans stopFound)
  have firstInside := (List.getElem?_eq_some_iff.mp startPlaced).1
  have lastInside := (List.getElem?_eq_some_iff.mp stopPlaced).1
  rw [Span.Holds, ← startSame, ← stopSame]
  constructor
  · rintro ⟨above, below⟩
    refine ⟨member, isCode, first, last, startPlaced, stopPlaced, ?_, ?_⟩
    · by_contra later
      have past := explains.laidOut.lt_of_code isCode (Nat.lt_of_not_le later) firstInside.le
      exact absurd past (Nat.not_lt.mpr above)
    · by_contra earlier
      have past := explains.laidOut.mono (Nat.le_of_not_lt earlier) isCode.inside.le
      exact absurd below (Nat.not_lt.mpr past)
  · rintro ⟨-, -, begin, finish, beginPlaced, finishPlaced, above, below⟩
    cases explains.closed.labels beginPlaced startPlaced
    cases explains.closed.labels finishPlaced stopPlaced
    exact ⟨explains.laidOut.mono above isCode.inside.le,
      explains.laidOut.lt_of_code isCode below lastInside.le⟩

/-- A handler has entries exactly if it is in charge of code that can be reached. -/
theorem protects_iff {handler : Handler} (member : handler ∈ body.handlers) {start stop : Nat}
    (startFound : offsetOf trace.layout handler.start = .ok start)
    (stopFound : offsetOf trace.layout handler.stop = .ok stop) :
    (liveSpans ⟨start, stop⟩ trace.dead).isEmpty = false ↔
      ∃ position, body.Reachable position ∧ body.Protects handler position := by
  obtain ⟨first, last, target, startPlaced, stopPlaced, -⟩ :=
    explains.closed.handlers handler member
  cases (explains.offsetOf_label startPlaced).symm.trans startFound
  cases (explains.offsetOf_label stopPlaced).symm.trans stopFound
  have lastInside := (List.getElem?_eq_some_iff.mp stopPlaced).1
  have firstInside := (List.getElem?_eq_some_iff.mp startPlaced).1
  rw [liveSpans_isEmpty explains.dead_runs]
  constructor
  · rintro ⟨offset, ⟨above, below⟩, live⟩
    have inside := below.trans_le (explains.laidOut.mono lastInside.le (Nat.le_refl _))
    obtain ⟨position, isCode, path, started, ended⟩ := explains.exists_live inside live
    refine ⟨position, path, member, isCode, first, last, startPlaced, stopPlaced, ?_, ?_⟩
    · by_contra later
      have past := explains.laidOut.mono (Nat.lt_of_not_le later) firstInside.le
      exact absurd (ended.trans_le past) (Nat.not_lt.mpr above)
    · by_contra earlier
      have past := explains.laidOut.mono (Nat.le_of_not_lt earlier) isCode.inside.le
      exact absurd below (Nat.not_lt.mpr (past.trans started))
  · rintro ⟨position, path, covered⟩
    have isCode : body.IsCodeAt position := covered.isCode
    exact ⟨trace.start position, (explains.holds_iff_protects member startFound stopFound isCode).mpr
      covered, explains.start_not_dead isCode path⟩

/-- The handlers of code that can be reached are leapt to. -/
theorem mem_exceptions {handler : Handler} {position target : Nat}
    (path : body.Reachable position) (covered : body.Protects handler position)
    (placed : body.LabelAt handler.target target) :
    trace.start target ∈ trace.exceptions.flatMap Prod.snd := by
  have each := explains.exceptions
  obtain ⟨result, member, _, _, done⟩ := each.total.1 handler covered.member
  obtain ⟨start, stop, offset, _, startFound, stopFound, offsetFound, -, -, leaps⟩ :=
    exceptionEntries_cases done
  cases (explains.offsetOf_label placed).symm.trans offsetFound
  have live := (explains.protects_iff covered.member startFound stopFound).mpr
    ⟨position, path, covered⟩
  rw [live] at leaps
  exact List.mem_flatMap.mpr ⟨result, member, leaps ▸ List.mem_singleton_self _⟩

/-- Where an exception leads, an instruction that can be reached starts. -/
theorem startsLive_of_exception {offset : Nat}
    (member : offset ∈ trace.exceptions.flatMap Prod.snd) :
    body.StartsLive trace.start offset := by
  obtain ⟨result, resultMember, here⟩ := List.mem_flatMap.mp member
  have each := explains.exceptions
  obtain ⟨handler, isHandler, _, _, done⟩ := each.total.2 result resultMember
  obtain ⟨start, stop, target, _, startFound, stopFound, targetFound, -, -, leaps⟩ :=
    exceptionEntries_cases done
  rw [leaps] at here
  split at here
  · cases here
  · rename_i nonempty
    cases List.mem_singleton.mp here
    obtain ⟨position, path, covered⟩ := (explains.protects_iff isHandler startFound stopFound).mp
      (Bool.eq_false_iff.mpr nonempty)
    obtain ⟨_, _, place, -, -, placed⟩ := explains.closed.handlers handler isHandler
    cases (explains.offsetOf_label placed).symm.trans targetFound
    exact (path.step (.exception covered placed)).startsLive explains.closed explains.laidOut

/-- An entry of the exception table leads to an offset that exceptions lead to. -/
theorem entry_handler {entry : ExceptionEntry} (member : entry ∈ code.exceptions) :
    entry.handler.toNat ∈ trace.leaps := by
  rw [explains.table] at member
  obtain ⟨result, resultMember, here⟩ := List.mem_flatMap.mp member
  have each := explains.exceptions
  obtain ⟨handler, isHandler, _, _, done⟩ := each.total.2 result resultMember
  obtain ⟨start, stop, target, _, -, -, -, -, entries, leaps⟩ := exceptionEntries_cases done
  rw [entries] at here
  obtain ⟨span, spanMember, rfl⟩ := List.mem_map.mp here
  have nonempty : (liveSpans ⟨start, stop⟩ trace.dead).isEmpty = false :=
    List.isEmpty_eq_false_iff_exists_mem.mpr ⟨span, spanMember⟩
  have listed : target ∈ trace.exceptions.flatMap Prod.snd := by
    rw [nonempty] at leaps
    exact List.mem_flatMap.mpr ⟨result, resultMember, leaps ▸ List.mem_singleton_self _⟩
  have fits : target < 65536 := by
    have inside := (explains.startsLive_of_exception listed).inside explains.laidOut
    rw [explains.start_length] at inside
    exact inside.trans_le (explains.short.trans (Nat.le_succ _))
  rw [UInt16.toNat_ofNat_of_lt' fits]
  exact List.mem_append_right _ listed

/-- After a long conditional jump comes the next item. -/
theorem start_next_wide {position : Nat} {made : Part} {jump : Branch Label}
    (found : trace.parts[position]? = some made) (isJump : made.item = .branch jump)
    (live : made.isLive = true) (wide : trace.isWide position = true)
    (falls : jump.fallsThrough = true) : trace.start (position + 1) = trace.start position + 8 := by
  have piece : made.piece = .branch jump := by
    rw [Part.piece, isJump]
    exact if_pos live
  obtain ⟨target, hasTarget⟩ := explains.jumpTarget_of_isWide found piece wide
  rw [explains.start_next found, piece, wide]
  cases jump with
  | jumpIf => rfl
  | goto => cases falls
  | tableSwitch | lookupSwitch | ret | athrow => cases hasTarget

/-- Where a jump leads, an instruction that can be reached starts. -/
theorem startsLive_of_jump {offset : Nat} (member : offset ∈ trace.jumps) :
    body.StartsLive trace.start offset := by
  obtain ⟨lists, listsFound, same⟩ := Outcome.map_ok.mp explains.jumps
  obtain ⟨offsets, offsetsMember, here⟩ := List.mem_flatten.mp (same ▸ member)
  obtain ⟨part, partMember, offsetsFound⟩ := (Outcome.mem_mapM listsFound).mp offsetsMember
  obtain ⟨position, made, madeFound, rfl⟩ := explains.mem_placed.mp partMember
  obtain ⟨itemFound, liveness⟩ := explains.item_at madeFound
  rcases jumpOffsetsFrom_cases offsetsFound with ⟨jump, targets, isJump, live, listed, rfl⟩ | ⟨rfl, -⟩
  · have path := (explains.isReachable_iff position).mp (liveness.symm.trans live)
    simp only at isJump live
    rw [isJump] at itemFound
    rcases List.mem_append.mp here with isTarget | after
    · obtain ⟨label, labelMember, labelFound⟩ := (Outcome.mem_mapM listed).mp isTarget
      exact (explains.leadsTo path itemFound labelMember labelFound).startsLive explains.closed path
        itemFound labelMember
    · split at after
      · rename_i both
        obtain ⟨wide, falls⟩ := Bool.and_eq_true_iff.mp both
        cases List.mem_singleton.mp after
        rw [← explains.start_next_wide madeFound isJump live wide falls]
        exact (path.next itemFound falls).startsLive explains.closed explains.laidOut
      · cases after
  · cases here

theorem startsLive_of_leap {offset : Nat} (member : offset ∈ trace.leaps) :
    body.StartsLive trace.start offset :=
  (List.mem_append.mp member).elim explains.startsLive_of_jump explains.startsLive_of_exception

/-- What control leaps to is noted. -/
theorem mem_leaps {source target : Nat} (path : body.Reachable source)
    (leap : body.Leap source target) : trace.start target ∈ trace.leaps := by
  cases leap with
  | jump found member placed =>
    exact List.mem_append_left _ ((explains.mem_jumps path found).1 _ member _ placed)
  | exception covered placed =>
    exact List.mem_append_right _ (explains.mem_exceptions path covered placed)

/-- Every offset that control leaps to has an entry. -/
theorem mapped_of_leap {offset : Nat} (member : offset ∈ trace.leaps) :
    offset ∈ trace.mapped := by
  obtain ⟨position, ⟨item, found, isCode⟩, -, rfl⟩ := explains.startsLive_of_leap member
  obtain ⟨made, _, _, madeFound, -⟩ := explains.part_at found
  cases Option.some.inj (found.symm.trans (explains.item_at madeFound).1)
  have placed : (⟨made, position, trace.start position, trace.isWide position⟩ : Placed) ∈
      trace.placed := explains.mem_placed.mpr ⟨position, made, madeFound, rfl⟩
  exact mem_frameSources_item placed isCode member

/-- The code that comes after code that does not fall through has an entry. -/
theorem mapped_after {place next : Nat} (isCode : body.IsCodeAt place) (stops : body.Stops place)
    (first : body.FirstCode (place + 1) next) : trace.start next ∈ trace.mapped := by
  by_cases live : body.Reachable next
  · obtain ⟨source, target, path, leap, after, upTo⟩ :=
      live.leap stops.live first.ahead (Nat.le_refl _)
    have here : body.FirstCode target next :=
      ⟨upTo, first.isCode, fun ahead => first.skipped (Nat.le_trans after ahead)⟩
    rw [explains.laidOut.starts_firstCode here]
    exact explains.mapped_of_leap (explains.mem_leaps path leap)
  · have alive : body.Reachable place := by
      by_contra dead
      obtain ⟨between, after, before, path⟩ := stops.dead dead next first.ahead first.isCode
      obtain ⟨code, firstCode, reachable⟩ := explains.closed.firstCode path
      have same : body.FirstCode between next :=
        ⟨before, first.isCode, fun ahead => first.skipped (Nat.le_trans after ahead)⟩
      exact live (same.unique firstCode ▸ reachable)
    refine mem_frameSources_dead ((explains.dead_runs.start_iff _).mpr ⟨?_, ?_⟩)
    · exact (explains.mem_deadOffsets _).mpr ⟨next, first.isCode, live, rfl⟩
    · intro earlier touching dead
      obtain ⟨other, otherCode, unreachable, same⟩ := (explains.mem_deadOffsets earlier).mp dead
      have before : other < next := by
        by_contra later
        have past := explains.laidOut.mono (Nat.le_of_not_lt later) otherCode.inside.le
        omega
      have upTo : other ≤ place := by
        by_contra later
        exact first.skipped (Nat.lt_of_not_le later) before otherCode
      have apart : other ≠ place := by
        intro equal
        exact unreachable (equal ▸ alive)
      have gap := explains.laidOut.lt_of_code otherCode (Nat.lt_of_le_of_ne upTo apart)
        isCode.inside.le
      have last := explains.laidOut.lt_of_code isCode first.ahead first.isCode.inside.le
      omega

/-- There is an entry where dead code begins, and where it ends. -/
theorem mapped_border {place next : Nat} (isCode : body.IsCodeAt place)
    (first : body.FirstCode (place + 1) next)
    (differ : ¬ (body.Reachable place ↔ body.Reachable next)) :
    trace.start next ∈ trace.mapped := by
  refine explains.mapped_after isCode ⟨fun item live found => ?_, fun dead later ahead isLater => ?_⟩
    first
  · by_contra falls
    have path := live.next found (Bool.eq_true_of_not_eq_false falls)
    obtain ⟨code, firstCode, reachable⟩ := explains.closed.firstCode path
    exact differ (iff_of_true live (first.unique firstCode ▸ reachable))
  · have live : body.Reachable next := by
      by_contra other
      exact differ (iff_of_false dead other)
    have upTo : next ≤ later := by
      by_contra before
      exact first.skipped ahead (Nat.lt_of_not_le before) isLater
    exact ⟨next, first.ahead, upTo, live⟩

end Explains

end Trace

end Assembly

end ClassWeave
