import ClassWeave.Proofs.ClassFile.StackMap
import ClassWeave.Proofs.Code.Growth
import ClassWeave.Proofs.Code.StackMap
import ClassWeave.Proofs.Constant.Operands
import ClassWeave.Proofs.Typing.Listed

/-!
# Stack maps hold the inferred frames

The entries of a stack map are changes, each to the frame before it. A decoder follows them from the
frame on entry to the method, and finds every frame that went into the map, at its offset.
-/

namespace ClassWeave

open PoolM (Yields YieldsEach)

/-- The type that a stored one stands for. -/
def VerificationType.named (table : ConstantTable) : StoredType → Except Fault VType
  | top => .ok .top
  | integer => .ok .integer
  | float => .ok .float
  | double => .ok .double
  | long => .ok .long
  | null => .ok .null
  | uninitializedThis => .ok .uninitializedThis
  | object index => .object <$> table.classType index
  | uninitialized offset => .ok (.uninitialized offset.toNat)

/-- The frame that an entry leads to from the one before it. -/
def StackMapEntry.frameAfter (table : ConstantTable) (previous : ListedFrame) :
    StackMapEntry → Except Fault ListedFrame
  | same _ => return ⟨previous.locals, []⟩
  | sameOneStack _ value => do return ⟨previous.locals, [← value.named table]⟩
  | chop _ count =>
    if count.toNat ≤ previous.locals.length then
      return ⟨previous.locals.take (previous.locals.length - count.toNat), []⟩
    else throw (.io .invalidData)
  | append _ added => do
    return ⟨previous.locals ++ (← added.mapM fun type => type.named table), []⟩
  | full _ locals stack => do
    let locals ← locals.mapM fun type => type.named table
    return ⟨locals, ← stack.mapM fun type => type.named table⟩

/-- An entry of a stack map, with the frames on both sides of it. -/
structure MappedFrame where
  offset : Nat
  entry : StackMapEntry
  previous : ListedFrame
  frame : ListedFrame

/-- Follows entries from a frame on. -/
def framesFrom (table : ConstantTable) (previous : Option Nat) (frame : ListedFrame) :
    List StackMapEntry → Except Fault (List MappedFrame)
  | [] => return []
  | entry :: rest => do
    let next ← entry.frameAfter table frame
    let offset := entry.offsetAfter previous
    return ⟨offset, entry, frame, next⟩ :: (← framesFrom table (some offset) next rest)

/-- Decodes the stack map of a method. -/
def decodeStackMap (table : ConstantTable) (method : MethodContext) (bytes : Bytes) :
    Except Fault (List MappedFrame) := do
  let (entries, rest) ← StackMapEntry.readMap.runFrom (.io .unexpectedEof) bytes
  if rest.isEmpty then framesFrom table none (.initial method) entries
  else throw (.io .invalidData)

/-- What was named by a table is named so by every larger one. -/
theorem VerificationType.named_stable (type : StoredType) :
    ConstantTable.Stable fun table => type.named table := by
  cases type with
  | object index => exact (ConstantTable.Stable.classType index).map _
  | _ => exact ConstantTable.Stable.const _

namespace Pool

variable {pool later : Pool} {type : VType} {stored : StoredType}

/-- The index that a class is found under. -/
def classIndex? (pool : Pool) (name : String) : Option ConstantIndex := do
  let text ← pool.firstSlot[Constant.utf8 name]?
  pool.firstSlot[Constant.classRef text]?

/-- The stored form of a type whose class is in the pool. New objects are known by offsets. -/
def stored? (pool : Pool) : VType → Option StoredType
  | .top => some .top
  | .integer => some .integer
  | .float => some .float
  | .double => some .double
  | .long => some .long
  | .null => some .null
  | .uninitializedThis => some .uninitializedThis
  | .object type => (pool.classIndex? type.className).map .object
  | .uninitialized offset =>
    if offset < 2 ^ 16 then some (.uninitialized (UInt16.ofNat offset)) else none

theorem Grown.stored? (grown : pool.Grown later) (found : pool.stored? type = some stored) :
    later.stored? type = some stored := by
  cases type with
  | object type =>
    obtain ⟨index, indexFound, rfl⟩ := Option.map_eq_some_iff.mp found
    obtain ⟨text, textFound, indexFound⟩ := Option.bind_eq_some_iff.mp indexFound
    exact Option.map_eq_some_iff.mpr ⟨index, Option.bind_eq_some_iff.mpr
      ⟨text, grown.noted textFound, grown.noted indexFound⟩, rfl⟩
  | _ => exact found

/-- What is noted of a class leads back to it. -/
theorem Sound.named (sound : pool.Sound) (found : pool.stored? type = some stored) :
    stored.named pool.table = .ok type := by
  have holds {constant : Constant} {index : ConstantIndex}
      (noted : pool.firstSlot[constant]? = some index) :
      pool.table.constant index = .ok constant := by
    rw [ConstantTable.constant, sound.noted noted]
  cases type with
  | object type =>
    obtain ⟨index, indexFound, rfl⟩ := Option.map_eq_some_iff.mp found
    obtain ⟨text, textFound, indexFound⟩ := Option.bind_eq_some_iff.mp indexFound
    refine Outcome.map_ok.mpr ⟨type, ?_, rfl⟩
    exact ConstantTable.classType_of_name (holds indexFound)
      (Outcome.bind_ok.mpr ⟨_, holds textFound, rfl⟩)
  | uninitialized offset =>
    rw [Pool.stored?, Option.ite_none_right_eq_some] at found
    obtain ⟨small, found⟩ := found
    cases found
    rw [VerificationType.named, UInt16.toNat_ofNat_of_lt' small]
  | _ =>
    cases found
    rfl

/-- The pool has what a frame consists of. -/
structure Holds (pool : Pool) (listed : ListedFrame) (frame : StoredFrame) : Prop where
  locals : List.Forall₂ (fun type stored => pool.stored? type = some stored)
    listed.locals frame.locals
  stack : List.Forall₂ (fun type stored => pool.stored? type = some stored)
    listed.stack frame.stack

theorem Holds.grown {listed : ListedFrame} {frame : StoredFrame} (holds : pool.Holds listed frame)
    (grown : pool.Grown later) : later.Holds listed frame :=
  ⟨holds.locals.imp fun _ _ => grown.stored?, holds.stack.imp fun _ _ => grown.stored?⟩

end Pool

namespace PoolM

variable {before after : Pool} {offsetOf : Nat → UInt16}

theorem intern_noted {constant : Constant} {index : ConstantIndex}
    (done : Yields (intern constant) before index after) :
    after.firstSlot[constant]? = some index := by
  have noted := Pool.intern_noted (congrArg Prod.fst done)
  rwa [show (before.intern constant).2 = after from congrArg Prod.snd done] at noted

theorem classType_noted {type : RefType} {index : ConstantIndex}
    (done : Yields (classType type) before index after) :
    after.classIndex? type.className = some index := by
  obtain ⟨text, middle, first, second⟩ := yields_bind.mp done
  exact Option.bind_eq_some_iff.mpr
    ⟨text, ((grows_intern _).yields second).noted (intern_noted first), intern_noted second⟩

/-- Once stored, a type is found in the pool. -/
theorem storedType_found {type : VType} {stored : StoredType}
    (done : Yields (storedType offsetOf type) before stored after) :
    after.stored? (type.moved fun item => (offsetOf item).toNat) = some stored := by
  cases type with
  | object type =>
    obtain ⟨index, middle, first, second⟩ := yields_bind.mp done
    obtain ⟨rfl, rfl⟩ := yields_pure.mp second
    exact Option.map_eq_some_iff.mpr ⟨index, classType_noted first, rfl⟩
  | uninitialized item =>
    obtain ⟨rfl, rfl⟩ := yields_pure.mp done
    rw [VType.moved, Pool.stored?, if_pos (offsetOf item).toNat_lt, UInt16.ofNat_toNat]
  | _ =>
    obtain ⟨rfl, rfl⟩ := yields_pure.mp done
    rfl

theorem storedTypes_found {types : List VType} {stored : List StoredType}
    (done : Yields (types.mapM (storedType offsetOf)) before stored after) :
    List.Forall₂ (fun type stored => after.stored? type = some stored)
      (types.map (VType.moved fun item => (offsetOf item).toNat)) stored := by
  obtain ⟨-, each⟩ := (yields_mapM.mp done).forall₂ fun type =>
    (interning_storedType offsetOf type).grows
  refine List.forall₂_map_left_iff.mpr (each.imp ?_)
  rintro type stored ⟨earlier, later, -, done, grown⟩
  exact grown.stored? (storedType_found done)

theorem stored_holds {frame : VFrame} {stored : StoredFrame}
    (done : Yields (frame.stored offsetOf) before stored after) :
    after.Holds (frame.listed fun item => (offsetOf item).toNat) stored := by
  obtain ⟨locals, middle, first, later⟩ := yields_bind.mp done
  obtain ⟨stack, last, second, later⟩ := yields_bind.mp later
  obtain ⟨rfl, rfl⟩ := yields_pure.mp later
  have grown := (interning_mapM (interning_storedType offsetOf) _).grows.yields second
  refine ⟨(storedTypes_found first).imp fun _ _ => grown.stored?, ?_⟩
  have found := storedTypes_found second
  rwa [List.map_reverse] at found

end PoolM

/-- One stored form belongs to one type in a sound pool. -/
theorem Pool.Sound.stored_biUnique {pool : Pool} (sound : pool.Sound) :
    Relator.BiUnique fun type stored => pool.stored? type = some stored := by
  constructor
  · intro type stored other found otherFound
    exact Except.ok.inj ((sound.named found).symm.trans (sound.named otherFound))
  · intro type stored other found otherFound
    exact Option.some.inj (found.symm.trans otherFound)

namespace StoredFrame

variable {pool : Pool} {table : ConstantTable} {delta : UInt16} {entry : StackMapEntry}
  {previous frame : ListedFrame} {storedPrevious stored : StoredFrame}

/-- An entry that says how to get from one stored frame to another does so for what is stored. -/
theorem Leads.frameAfter (leads : Leads delta storedPrevious stored entry) (sound : pool.Sound)
    (kept : table.Extends pool.table) (earlier : pool.Holds previous storedPrevious)
    (later : pool.Holds frame stored) : entry.frameAfter table previous = .ok frame := by
  obtain ⟨locals, stack⟩ := frame
  have unique := sound.stored_biUnique.forall₂
  have named {types : List VType} {stored : List StoredType}
      (each : List.Forall₂ (fun type stored => pool.stored? type = some stored) types stored) :
      (stored.mapM fun type => type.named table) = .ok types :=
    Outcome.mapM_ok.mpr (each.flip.imp fun stored _ found =>
      stored.named_stable kept (sound.named found))
  cases leads with
  | same empty same =>
    have noStack : stack = [] := List.forall₂_nil_right_iff.mp (empty ▸ later.stack)
    have sameLocals : locals = previous.locals :=
      unique.left later.locals (same ▸ earlier.locals)
    rw [noStack, sameLocals]
    rfl
  | sameOneStack single same =>
    have sameLocals : locals = previous.locals :=
      unique.left later.locals (same ▸ earlier.locals)
    have stackNamed := named (single ▸ later.stack)
    rw [List.mapM_cons, List.mapM_nil] at stackNamed
    obtain ⟨value, valueNamed, onlyValue⟩ := Outcome.bind_ok.mp stackNamed
    cases onlyValue
    rw [sameLocals]
    exact Outcome.bind_ok.mpr ⟨value, valueNamed, rfl⟩
  | @chop gone empty some few cut =>
    have noStack : stack = [] := List.forall₂_nil_right_iff.mp (empty ▸ later.stack)
    have count : ∀ count < 4, (UInt8.ofNat count).toNat = count := by decide
    have length : previous.locals.length = stored.locals.length + gone.length := by
      rw [earlier.locals.length_eq, cut, List.length_append]
    have front := List.forall₂_take stored.locals.length earlier.locals
    rw [cut, List.take_left] at front
    have sameLocals : locals = previous.locals.take stored.locals.length :=
      unique.left later.locals front
    rw [StackMapEntry.frameAfter, count _ few, if_pos (by omega), noStack, sameLocals, length,
      Nat.add_sub_cancel]
    rfl
  | @append added empty some few joined =>
    have noStack : stack = [] := List.forall₂_nil_right_iff.mp (empty ▸ later.stack)
    have localsHeld := later.locals
    rw [joined] at localsHeld
    have front := List.forall₂_take_append _ _ _ localsHeld
    have sameLocals : locals.take storedPrevious.locals.length = previous.locals :=
      unique.left front earlier.locals
    refine Outcome.bind_ok.mpr ⟨_, named (List.forall₂_drop_append _ _ _ localsHeld), ?_⟩
    rw [noStack, ← sameLocals, List.take_append_drop]
    rfl
  | full =>
    exact Outcome.bind_ok.mpr ⟨locals, named later.locals,
      Outcome.bind_ok.mpr ⟨stack, named later.stack, rfl⟩⟩

/-- Where there is another way from one frame to the next, the whole frame is not listed. -/
theorem entryAfter_notFull (sound : pool.Sound) (earlier : pool.Holds previous storedPrevious)
    (later : pool.Holds frame stored) (inRange : entry.isInRange = true)
    (notFull : entry.isFull = false) (done : entry.frameAfter table previous = .ok frame) :
    (stored.entryAfter storedPrevious delta).isFull = false := by
  -- The stored frames are as alike as the frames are, so some entry leads from one to the other.
  suffices way : ∃ other, Leads delta storedPrevious stored other ∧ other.isFull = false by
    obtain ⟨other, leads, otherNotFull⟩ := way
    exact leads.entryAfter_isFull otherNotFull
  have unique := sound.stored_biUnique.forall₂
  cases entry with
  | same =>
    cases done
    have empty := List.forall₂_nil_left_iff.mp later.stack
    exact ⟨_, .same empty (unique.right later.locals earlier.locals), rfl⟩
  | sameOneStack _ value =>
    obtain ⟨type, -, done⟩ := Outcome.bind_ok.mp done
    cases done
    obtain ⟨value, rest, -, none, single⟩ := List.forall₂_cons_left_iff.mp later.stack
    rw [List.forall₂_nil_left_iff.mp none] at single
    exact ⟨_, .sameOneStack single (unique.right later.locals earlier.locals), rfl⟩
  | chop _ count =>
    simp only [StackMapEntry.frameAfter] at done
    split at done
    · rename_i inside
      cases done
      simp only [StackMapEntry.isInRange, Bool.and_eq_true, decide_eq_true_eq,
        UInt8.lt_iff_toNat_lt] at inRange
      obtain ⟨some, few⟩ := inRange
      change 0 < count.toNat at some
      change count.toNat < 4 at few
      have front := List.forall₂_take (previous.locals.length - count.toNat) earlier.locals
      have length := earlier.locals.length_eq
      have cut := unique.right later.locals front
      have gone := List.length_drop (i := previous.locals.length - count.toNat)
        (l := storedPrevious.locals)
      refine ⟨_, .chop (List.forall₂_nil_left_iff.mp later.stack) ?_ ?_
        (cut ▸ (List.take_append_drop _ _).symm), rfl⟩
      · rw [← List.length_pos_iff]
        omega
      · omega
    · cases done
  | append _ added =>
    simp only [StackMapEntry.isInRange, Bool.and_eq_true, decide_eq_true_eq] at inRange
    obtain ⟨types, typesNamed, done⟩ := Outcome.bind_ok.mp done
    cases done
    have front := List.forall₂_take previous.locals.length later.locals
    rw [List.take_left] at front
    have joined := unique.right front earlier.locals
    have length := later.locals.length_eq
    rw [List.length_append, ← (Outcome.mapM_ok.mp typesNamed).length_eq] at length
    have rest := List.length_drop (i := previous.locals.length) (l := stored.locals)
    refine ⟨_, .append (List.forall₂_nil_left_iff.mp later.stack) ?_ ?_
      (joined ▸ (List.take_append_drop _ _).symm), rfl⟩
    · rw [← List.length_pos_iff]
      omega
    · omega
  | full => cases notFull

end StoredFrame

/-- A frame that a stack map has room for: each two-slot local has the slot after it to itself, and
both lists can be counted in 16 bits. -/
structure VFrame.Mappable (frame : VFrame) : Prop where
  spaced : Spaced frame.locals
  locals : (condensed frame.locals).length < 2 ^ 16
  stack : frame.stack.length < 2 ^ 16

/-- A decoded entry is for a frame: it is at the frame's offset, and leads to the frame. -/
structure MappedFrame.Shows (table : ConstantTable) (offsetOf : Nat → Nat) (place : Nat × VFrame)
    (mapped : MappedFrame) : Prop where
  offset : mapped.offset = place.1
  frame : mapped.frame.spread.Same (place.2.moved offsetOf)
  inRange : mapped.entry.isInRange = true
  /-- The whole frame is listed only if no other entry leads to it from the one before it. -/
  needed : mapped.entry.isFull = true → ∀ other : StackMapEntry, other.isInRange = true →
    other.frameAfter table mapped.previous = .ok mapped.frame → other.isFull = true

namespace Assembly

/-- The frame at a place that needs one. Dead code throws what is on the stack. -/
def frameOf (typing : Typing) : FrameSource → Option VFrame
  | .dead => some ⟨[], [VType.ofClass .throwable]⟩
  | .item position => typing.frameAt position

/-- The frames that go into a stack map, with their offsets. -/
def framesToMap (typing : Typing) (sources : List (Nat × FrameSource)) : List (Nat × VFrame) :=
  sources.filterMap fun (offset, source) => (frameOf typing source).map fun frame => (offset, frame)

variable {pool before after : Pool} {table : ConstantTable} {typing : Typing}
  {itemOffset : Nat → UInt16} {deadFrame storedPrevious : StoredFrame} {listed : ListedFrame}
  {seen entries : List StackMapEntry} {previous : Option Nat} {offset : Nat}
  {source : FrameSource} {sources rest : List (Nat × FrameSource)}

/-- A place gets an entry if there is a frame for it. -/
theorem stackMapEntries_cases
    (dead : before.Holds ⟨[], [VType.ofClass .throwable]⟩ deadFrame)
    (done : Yields (stackMapEntries typing itemOffset deadFrame seen previous storedPrevious
      ((offset, source) :: rest)) before entries after) :
    frameOf typing source = none ∧ Yields (stackMapEntries typing itemOffset deadFrame seen previous
      storedPrevious rest) before entries after ∨
    ∃ frame stored middle, frameOf typing source = some frame ∧ before.Grown middle ∧
      middle.Holds (frame.listed fun item => (itemOffset item).toNat) stored ∧
      Yields (stackMapEntries typing itemOffset deadFrame
        (stored.entryAfter storedPrevious (deltaAfter previous offset) :: seen) (some offset) stored
        rest) middle entries after := by
  cases source with
  | dead =>
    rw [stackMapEntries] at done
    obtain ⟨_, middle, found, later⟩ := PoolM.yields_bind.mp done
    obtain ⟨rfl, rfl⟩ := PoolM.yields_pure.mp found
    exact .inr ⟨_, deadFrame, before, rfl, .refl _, dead, later⟩
  | item position =>
    rw [stackMapEntries] at done
    cases inferred : typing.frameAt position with
    | none =>
      rw [inferred] at done
      obtain ⟨_, middle, found, later⟩ := PoolM.yields_bind.mp done
      obtain ⟨rfl, rfl⟩ := PoolM.yields_pure.mp found
      exact .inl ⟨inferred, later⟩
    | some frame =>
      rw [inferred] at done
      obtain ⟨_, middle, found, later⟩ := PoolM.yields_bind.mp done
      obtain ⟨stored, frameStored, rfl⟩ := PoolM.yields_map.mp found
      exact .inr ⟨frame, stored, middle, inferred, (stored_interning _ _).grows.yields frameStored,
        PoolM.stored_holds frameStored, later⟩

/-- One entry more leads from the frame before it to its own. -/
theorem entryAfter_shows {frame : VFrame} {stored : StoredFrame} {offsetOf : Nat → Nat}
    (sound : pool.Sound) (kept : table.Extends pool.table)
    (earlier : pool.Holds listed storedPrevious) (later : pool.Holds (frame.listed offsetOf) stored)
    (above : ∀ earlier ∈ previous, earlier < offset) (inside : offset ≤ 65535)
    (mappable : frame.Mappable) :
    let entry := stored.entryAfter storedPrevious (deltaAfter previous offset)
    entry.frameAfter table listed = .ok (frame.listed offsetOf) ∧
      entry.offsetAfter previous = offset ∧ entry.Fits ∧
      MappedFrame.Shows table offsetOf (offset, frame)
        ⟨offset, entry, listed, frame.listed offsetOf⟩ := by
  intro entry
  have leads := stored.entryAfter_leads storedPrevious (deltaAfter previous offset)
  have locals : stored.locals.length < 2 ^ 16 := by
    rw [← later.locals.length_eq, VFrame.listed, List.length_map]
    exact mappable.locals
  have stack : stored.stack.length < 2 ^ 16 := by
    rw [← later.stack.length_eq, VFrame.listed, List.length_reverse, List.length_map]
    exact mappable.stack
  refine ⟨leads.frameAfter sound kept earlier later,
    deltaAfter_offset above inside (stored.entryAfter_delta _ _), leads.fits locals stack, rfl,
    VFrame.listed_spread mappable.spaced, leads.isInRange, fun isFull other inRange done => ?_⟩
  by_contra notFull
  have chosen : entry.isFull = false := StoredFrame.entryAfter_notFull sound earlier later inRange
    (Bool.eq_false_of_not_eq_true notFull) done
  cases isFull.symm.trans chosen

/-- Following the entries from the frame before them leads to all frames that went into them. -/
theorem stackMapEntries_shows
    (done : Yields (stackMapEntries typing itemOffset deadFrame seen previous storedPrevious sources)
      before entries after)
    (sound : before.Sound) (kept : table.Extends after.table)
    (dead : before.Holds ⟨[], [VType.ofClass .throwable]⟩ deadFrame)
    (earlier : before.Holds listed storedPrevious)
    (ascending : ((framesToMap typing sources).map Prod.fst).Pairwise (· < ·))
    (above : ∀ place ∈ framesToMap typing sources, ∀ earlier ∈ previous, earlier < place.1)
    (inside : ∀ place ∈ framesToMap typing sources, place.1 ≤ 65535)
    (mappable : ∀ place ∈ framesToMap typing sources, place.2.Mappable) :
    ∃ added decoded, entries = seen.reverse ++ added ∧ (∀ entry ∈ added, entry.Fits) ∧
      framesFrom table previous listed added = .ok decoded ∧
      List.Forall₂ (MappedFrame.Shows table fun item => (itemOffset item).toNat)
        (framesToMap typing sources) decoded := by
  induction sources generalizing seen previous storedPrevious listed before with
  | nil =>
    obtain ⟨rfl, -⟩ := PoolM.yields_pure.mp done
    exact ⟨[], [], by simp, nofun, rfl, .nil⟩
  | cons source rest ih =>
    obtain ⟨offset, source⟩ := source
    rcases stackMapEntries_cases dead done with
      ⟨unframed, later⟩ | ⟨frame, stored, middle, framed, grown, holds, later⟩
    · have same : framesToMap typing ((offset, source) :: rest) = framesToMap typing rest :=
        List.filterMap_cons_none (by simp only [unframed, Option.map_none])
      rw [same] at ascending above inside mappable ⊢
      exact ih later sound dead earlier ascending above inside mappable
    · have same : framesToMap typing ((offset, source) :: rest) =
          (offset, frame) :: framesToMap typing rest :=
        List.filterMap_cons_some (by simp only [framed, Option.map_some])
      rw [same] at ascending above inside mappable ⊢
      obtain ⟨first, ascending⟩ := List.pairwise_cons.mp ascending
      have middleSound := grown.sound sound
      have finished := (stackMapEntries_interning _ _ _ _ _ _ _).grows.yields later
      obtain ⟨leads, here, fits, shows⟩ := entryAfter_shows middleSound
        (kept.trans finished.kept) (earlier.grown grown) holds
        (above _ List.mem_cons_self) (inside _ List.mem_cons_self) (mappable _ List.mem_cons_self)
      obtain ⟨added, decoded, rfl, allFit, followed, others⟩ := ih later middleSound
        (dead.grown grown) holds ascending
        (fun place member earlier isPrevious => by
          cases isPrevious
          exact first place.1 (List.mem_map_of_mem member))
        (fun place member => inside place (List.mem_cons_of_mem _ member))
        (fun place member => mappable place (List.mem_cons_of_mem _ member))
      refine ⟨_ :: added, _ :: decoded, by simp, List.forall_mem_cons.mpr ⟨fits, allFit⟩,
        Outcome.bind_ok.mpr ⟨_, leads, Outcome.bind_ok.mpr ⟨decoded, ?_, rfl⟩⟩, .cons ?_ others⟩
      · rwa [here]
      · simpa only [here] using shows

/-- Every entry that is followed leads to one frame. -/
theorem framesFrom_entries {decoded : List MappedFrame}
    (done : framesFrom table previous listed entries = .ok decoded) :
    decoded.map MappedFrame.entry = entries := by
  induction entries generalizing previous listed decoded with
  | nil =>
    cases done
    rfl
  | cons entry rest ih =>
    obtain ⟨next, -, done⟩ := Outcome.bind_ok.mp done
    obtain ⟨others, followed, done⟩ := Outcome.bind_ok.mp done
    cases done
    rw [List.map_cons, ih followed]

theorem length_le_of_ascending {offsets : List Nat} {limit : Nat}
    (ascending : offsets.Pairwise (· < ·)) (below : ∀ offset ∈ offsets, offset < limit) :
    offsets.length ≤ limit := by
  have distinct : offsets.Nodup := ascending.imp Nat.ne_of_lt
  have inRange : offsets ⊆ List.range limit := fun offset member =>
    List.mem_range.mpr (below offset member)
  simpa using (List.subperm_of_subset distinct inRange).length_le

/-- The offset of an item, as it is recorded for new objects. -/
def recordedOffset (layout : Layout) (position : Nat) : Nat :=
  (UInt16.ofNat (layout.offsets.getD position 0)).toNat

/-- A decoder finds all frames that go into a stack map, each at its own offset. There are codes for
all entries, and an entry lists the whole frame only where no other entry leads to it. -/
theorem stackMap_decodes {context : AssemblyContext} {layout : Layout} {map : Attribute}
    (done : Yields (stackMap context typing layout sources) before map after)
    (sound : before.Sound) (kept : table.Extends after.table)
    (ascending : ((framesToMap typing sources).map Prod.fst).Pairwise (· < ·))
    (inside : ∀ place ∈ framesToMap typing sources, place.1 < 65535)
    (mappable : ∀ place ∈ framesToMap typing sources, place.2.Mappable) :
    ∃ decoded, decodeStackMap table context.method map.info = .ok decoded ∧
      List.Forall₂ (MappedFrame.Shows table (recordedOffset layout)) (framesToMap typing sources)
        decoded := by
  obtain ⟨initial, started, initialStored, done⟩ := PoolM.yields_bind.mp done
  obtain ⟨thrown, ready, thrownStored, done⟩ := PoolM.yields_bind.mp done
  obtain ⟨entries, mapped, entriesFound, done⟩ := PoolM.yields_bind.mp done
  obtain ⟨name, last, named, same⟩ := PoolM.yields_bind.mp done
  obtain ⟨rfl, rfl⟩ := PoolM.yields_pure.mp same
  have startedGrown := (stored_interning _ _).grows.yields initialStored
  have readyGrown := (PoolM.interning_storedType _ _).grows.yields thrownStored
  have finished := (PoolM.interning_utf8 _).grows.yields named
  have earlier := (PoolM.stored_holds initialStored).grown readyGrown
  rw [VFrame.initial_listed] at earlier
  have dead : ready.Holds ⟨[], [VType.ofClass .throwable]⟩ ⟨[], [thrown]⟩ :=
    ⟨.nil, .cons (PoolM.storedType_found thrownStored) .nil⟩
  obtain ⟨added, decoded, same, fit, followed, shows⟩ := stackMapEntries_shows entriesFound
    ((startedGrown.trans readyGrown).sound sound) (kept.trans finished.kept) dead earlier ascending
    (fun _ _ _ impossible => by cases impossible) (fun place member => (inside place member).le)
    mappable
  rw [List.reverse_nil, List.nil_append] at same
  subst same
  have short : entries.length < 2 ^ 16 := by
    have below := length_le_of_ascending ascending fun offset member => by
      obtain ⟨place, isPlace, rfl⟩ := List.mem_map.mp member
      exact inside place isPlace
    rw [← framesFrom_entries followed, List.length_map, ← shows.length_eq]
    rw [List.length_map] at below
    omega
  have read := StackMapEntry.reads_map short fit 0 []
  rw [List.append_nil] at read
  refine ⟨decoded, Outcome.bind_ok.mpr ⟨(entries, []), ?_, followed⟩, shows⟩
  rw [Reader.runFrom, read]

/-- Frames that are mapped by entries of every kind, one after the other. -/
def mixedTyping : Typing :=
  ⟨#[some ⟨[.long, .top, .integer], []⟩, some ⟨[.long, .top, .integer], [.uninitialized 0]⟩,
    some ⟨[.long, .top, .top], []⟩, some ⟨[.top, .float], [.double, .integer]⟩,
    some ⟨[.top, .float, .top], []⟩, none], 3, 3⟩

def mixedLayout : Layout := ⟨⟨#[0, 64, 70, 134, 200, 250], ∅, 300⟩, #[]⟩

def mixedContext : AssemblyContext :=
  ⟨⟨.object, .clinit, ⟨[.base .long], none⟩, true⟩, .flat, true⟩

def mixedSources : List (Nat × FrameSource) :=
  [(0, .item 0), (64, .item 1), (70, .item 2), (134, .item 3), (200, .item 4), (250, .item 5),
    (299, .dead)]

/-- The name of the attribute goes into the third slot, after the class of exceptions. -/
def mixedMap : Attribute :=
  ⟨3, encodeStackMap [.append 0 [.integer], .sameOneStack 63 (.uninitialized 0), .chop 5 1,
    .full 63 [.top, .float] [.integer, .double], .same 65, .full 98 [] [.object 2]]⟩

private theorem mixed_mapped : ∃ after,
    Yields (stackMap mixedContext mixedTyping mixedLayout mixedSources) .empty mixedMap after := by
  obtain ⟨pool, thrown, new, size⟩ := storedType_throwable fun position =>
    UInt16.ofNat (mixedLayout.offsets.getD position 0)
  obtain ⟨after, name, -⟩ := PoolM.yields_intern_new new (by rw [size]; decide)
  rw [size] at name
  refine ⟨after, PoolM.yields_bind.mpr ⟨⟨[.long], []⟩, .empty, by rfl, ?_⟩⟩
  refine PoolM.yields_bind.mpr ⟨.object 2, pool, thrown, ?_⟩
  refine PoolM.yields_bind.mpr ⟨_, pool, by rfl, ?_⟩
  exact PoolM.yields_bind.mpr ⟨3, after, name, PoolM.yields_pure.mpr ⟨rfl, rfl⟩⟩

private theorem mixed_mappable :
    ∀ place ∈ framesToMap mixedTyping mixedSources, place.2.Mappable := by
  intro place member
  fin_cases member <;>
    exact ⟨by simp [spaced_cons, spaced_nil, VerificationType.width], by decide, by decide⟩

theorem mixed_decodes : ∃ after,
    Yields (stackMap mixedContext mixedTyping mixedLayout mixedSources) .empty mixedMap after ∧
    Pool.empty.Sound ∧ after.table.Extends after.table ∧
    ((framesToMap mixedTyping mixedSources).map Prod.fst).Pairwise (· < ·) ∧
    (∀ place ∈ framesToMap mixedTyping mixedSources, place.1 < 65535) ∧
    (∀ place ∈ framesToMap mixedTyping mixedSources, place.2.Mappable) ∧
    ∃ decoded, decodeStackMap after.table mixedContext.method mixedMap.info = .ok decoded ∧
      List.Forall₂ (MappedFrame.Shows after.table (recordedOffset mixedLayout))
        (framesToMap mixedTyping mixedSources) decoded := by
  obtain ⟨after, done⟩ := mixed_mapped
  have ascending : ((framesToMap mixedTyping mixedSources).map Prod.fst).Pairwise (· < ·) := by
    decide
  have inside : ∀ place ∈ framesToMap mixedTyping mixedSources, place.1 < 65535 := by decide
  exact ⟨after, done, Pool.empty_sound, .refl _, ascending, inside, mixed_mappable,
    stackMap_decodes done Pool.empty_sound (.refl _) ascending inside mixed_mappable⟩

end Assembly

end ClassWeave
