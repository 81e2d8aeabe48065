import Mathlib
import ClassWeave.Code.Assembly
import ClassWeave.Proofs.Code.Emission
import ClassWeave.Proofs.Code.Jumps
import ClassWeave.Proofs.Code.Layout

/-!
# Rounds of widening

Pieces are placed in rounds, and each round but the last widens a jump that no later round makes
short again. So the rounds come to an end, and what the last one leaves behind can be written: its
jumps were found to be in reach with the very offsets that it gives.
-/

namespace ClassWeave

namespace Branch

/-- A branch can be written wherever its target is in reach, and a switch anywhere. -/
theorem encodeAt_total {offset : Nat} {widened : Bool} {jump : Branch Nat}
    (reached : ∀ target, jump.jumpTarget? = some target → widened = false →
      isShort (distance offset target) = true) :
    ∃ bytes, jump.encodeAt offset widened = .ok bytes := by
  have encodes {opcode : UInt8} {target : Nat} (short : isShort (distance offset target) = true) :
      encodeShort opcode offset target = .ok
        (opcode :: Bytes.ofUInt16 (Int16.ofInt (distance offset target)).toUInt16) := by
    rw [encodeShort]
    exact if_pos short
  cases jump with
  | jumpIf test target =>
    cases widened with
    | true =>
      -- the negated test jumps over the long jump, which is eight bytes on
      have skips : isShort (distance offset (offset + 8)) = true := by
        rw [distance, Int.natCast_add, Int.add_comm, Int.add_sub_cancel]
        decide
      exact ⟨_, Outcome.bind_ok.mpr ⟨_, encodes skips, rfl⟩⟩
    | false => exact ⟨_, encodes (reached target rfl rfl)⟩
  | goto target =>
    cases widened with
    | true => exact ⟨_, rfl⟩
    | false => exact ⟨_, encodes (reached target rfl rfl)⟩
  | tableSwitch | lookupSwitch | ret | athrow => exact ⟨_, rfl⟩

/-- The numbers that a branch is written with are those that it stands for: none wraps around. A
widened conditional jump has its long jump three bytes on. -/
structure Exact (offset : Nat) (jump : Branch Nat) : Prop where
  distances : ∀ target ∈ jump.targets, ∀ source ∈ [offset, offset + 3],
    (Int32.ofInt (distance source target)).toInt = distance source target
  keys {default : Nat} {low : Int32} {targets : List Nat} :
    jump = .tableSwitch default low targets →
      (low + Int32.ofNat targets.length).toInt = low.toInt + targets.length ∧
      (low + Int32.ofNat targets.length - 1).toInt = low.toInt + targets.length - 1
  count {default : Nat} {cases : List (Int32 × Nat)} :
    jump = .lookupSwitch default cases → (UInt32.ofNat cases.length).toNat = cases.length

theorem exact_of_short {offset : Nat} {jump : Branch Nat} (fits : jump.FitsTable)
    (offsetFits : offset ≤ 65535) (targetsFit : ∀ target ∈ jump.targets, target ≤ 65535)
    (widthFits : jump.widthAt offset false ≤ 65535) : jump.Exact offset := by
  refine ⟨fun target member source isSource => ?_, ?_, ?_⟩
  · have near := targetsFit target member
    simp only [List.mem_cons, List.not_mem_nil, or_false] at isSource
    apply Int32.toInt_ofInt_of_le <;> rw [distance] <;> omega
  · rintro default low targets rfl
    have lowest := low.le_toInt
    refine ⟨?_, Bytecode.toInt_high fits.1 (Int.le_trans fits.2 (by decide))⟩
    have highest := fits.2
    rw [Int32.toInt_add, Int32.toInt_ofNat', Int.add_bmod_bmod,
      show Int32.size = 4294967296 from rfl]
    exact Int.bmod_eq_of_le (by omega) (by omega)
  · rintro default cases rfl
    rw [widthAt] at widthFits
    have few : cases.length < 4294967296 := by omega
    exact UInt32.toNat_ofNat_of_lt' few

end Branch

namespace Placement

/-- Only labels that are placed have offsets. -/
theorem ofPieces_labels {pieces : List Piece} {widened : List Bool} {mark : Label} {offset : Nat}
    (found : (ofPieces pieces widened).labels[mark]? = some offset) : .label mark ∈ pieces := by
  have placed : ∃ wide, (.label mark, wide) ∈ pieces.zip widened := by
    unfold ofPieces at found
    generalize pieces.zip widened = pairs at found ⊢
    induction pairs using List.reverseRecOn with
    | nil => simp [empty] at found
    | append_singleton pairs pair ih =>
      rw [List.foldl_append] at found
      by_cases last : pair.1 = .label mark
      · exact ⟨pair.2, List.mem_append_right _ (List.mem_singleton.mpr (last ▸ rfl))⟩
      · obtain ⟨wide, member⟩ := ih ((add_labels_ne last).symm.trans found)
        exact ⟨wide, List.mem_append_left _ member⟩
  obtain ⟨wide, member⟩ := placed
  exact (List.of_mem_zip member).1

end Placement

namespace Layout

variable {isLive : Nat → Bool} {pieces : List Piece}

/-- Placing pieces, as often as it takes, from given widened jumps on: the number of rounds, and
what comes of them. -/
inductive Rounds (isLive : Nat → Bool) (pieces : List Piece) :
    Nat → List Bool → Except Fault Layout → Prop where
  | settled {widened : List Bool}
      (fits : (Placement.ofPieces pieces widened).widen isLive pieces widened = .ok widened) :
      Rounds isLive pieces 1 widened (.ok ⟨.ofPieces pieces widened, widened.toArray⟩)
  | failed {widened : List Bool} {fault : Fault}
      (fails : (Placement.ofPieces pieces widened).widen isLive pieces widened = .error fault) :
      Rounds isLive pieces 1 widened (.error fault)
  | again {rounds : Nat} {widened next : List Bool} {outcome : Except Fault Layout}
      (widens : (Placement.ofPieces pieces widened).widen isLive pieces widened = .ok next)
      (differs : next ≠ widened) (later : Rounds isLive pieces rounds next outcome) :
      Rounds isLive pieces (rounds + 1) widened outcome

/-- There is one way to go through the rounds. -/
theorem Rounds.unique {rounds other : Nat} {widened : List Bool}
    {outcome otherOutcome : Except Fault Layout}
    (one : Rounds isLive pieces rounds widened outcome)
    (two : Rounds isLive pieces other widened otherOutcome) :
    other = rounds ∧ otherOutcome = outcome := by
  induction one generalizing other otherOutcome with
  | settled fits =>
    cases two with
    | settled => exact ⟨rfl, rfl⟩
    | failed fails => cases fits.symm.trans fails
    | again widens differs =>
      cases fits.symm.trans widens
      exact (differs rfl).elim
  | failed fails =>
    cases two with
    | settled fits => cases fails.symm.trans fits
    | failed fails' =>
      cases fails.symm.trans fails'
      exact ⟨rfl, rfl⟩
    | again widens => cases fails.symm.trans widens
  | again widens differs _ ih =>
    cases two with
    | settled fits =>
      cases widens.symm.trans fits
      exact (differs rfl).elim
    | failed fails => cases widens.symm.trans fails
    | again widens' _ later =>
      cases widens.symm.trans widens'
      obtain ⟨rfl, rfl⟩ := ih later
      exact ⟨rfl, rfl⟩

/-- A jump that is wide stays wide. -/
theorem widen_grows {placement : Placement} {widened next : List Bool}
    (length : widened.length = next.length)
    (done : placement.widen isLive pieces widened = .ok next) :
    List.Forall₂ (fun old wide => old = true → wide = true) widened next := by
  refine List.forall₂_iff_get.mpr ⟨length, fun position inside inside' already => ?_⟩
  obtain ⟨piece, old, -, oldFound, must⟩ := widen_at done (List.getElem?_eq_getElem inside')
  cases (List.getElem?_eq_getElem inside).symm.trans oldFound
  rw [List.get_eq_getElem] at already
  rw [already] at must
  exact (Except.ok.inj must).symm

theorem count_false_le {widened next : List Bool}
    (grows : List.Forall₂ (fun old wide => old = true → wide = true) widened next) :
    next.count false ≤ widened.count false := by
  induction grows with
  | nil => exact Nat.le_refl _
  | cons first _ ih => grind

/-- Each round that changes something leaves fewer jumps to be widened. -/
theorem count_false_lt {widened next : List Bool}
    (grows : List.Forall₂ (fun old wide => old = true → wide = true) widened next)
    (differs : next ≠ widened) : next.count false < widened.count false := by
  induction grows with
  | nil => exact (differs rfl).elim
  | @cons old wide earlier later first rest ih =>
    by_cases same : wide = old
    · subst same
      have fewer := ih fun equal => differs (congrArg _ equal)
      rw [List.count_cons, List.count_cons]
      omega
    · have changed : old = false ∧ wide = true := by grind
      obtain ⟨rfl, rfl⟩ := changed
      rw [List.count_cons_self, List.count_cons_of_ne (by decide)]
      exact Nat.lt_succ_of_le (count_false_le rest)

/-- Rounds enough for all jumps to be widened one by one are as good as rounds without a limit. -/
theorem settle_rounds {fuel : Nat} {widened : List Bool} (length : widened.length = pieces.length)
    (enough : widened.count false < fuel) :
    ∃ rounds ≤ widened.count false + 1,
      Rounds isLive pieces rounds widened (settle isLive pieces fuel widened) := by
  induction fuel generalizing widened with
  | zero => omega
  | succ fuel ih =>
    have size : (Placement.ofPieces pieces widened).offsets.size = pieces.length := by
      rw [Placement.ofPieces_places.size, List.length_zip, length, Nat.min_self]
    cases found : (Placement.ofPieces pieces widened).widen isLive pieces widened with
    | error fault =>
      have outcome : settle isLive pieces (fuel + 1) widened = .error fault := by
        rw [settle, found]
        rfl
      exact ⟨1, by omega, outcome ▸ .failed found⟩
    | ok next =>
      have outcome : settle isLive pieces (fuel + 1) widened =
          if next = widened then .ok ⟨.ofPieces pieces widened, widened.toArray⟩
          else settle isLive pieces fuel next := by
        rw [settle, found]
        rfl
      rw [outcome]
      split
      · rename_i same
        exact ⟨1, by omega, .settled (same ▸ found)⟩
      · rename_i differs
        have nextLength := widen_length size length found
        have fewer := count_false_lt (widen_grows (length.trans nextLength.symm) found) differs
        obtain ⟨rounds, few, later⟩ := ih nextLength (by omega)
        exact ⟨rounds + 1, by omega, .again found differs later⟩

/-- Wide pieces are live jumps. -/
def WidensLive (isLive : Nat → Bool) (pieces : List Piece) (widened : List Bool) : Prop :=
  ∀ position : Nat, widened[position]? = some true → isLive position = true ∧
    ∃ (jump : Branch Label) (target : Label),
      pieces[position]? = some (.branch jump) ∧ jump.jumpTarget? = some target

/-- Jumps that need not be widened are in reach. -/
theorem mustWiden_short {placement : Placement} {offset : Nat} {jump : Branch Label}
    {target : Label} (hasTarget : jump.jumpTarget? = some target)
    (must : placement.mustWiden true false offset (.branch jump) = .ok false) :
    ∃ targetOffset, placement.labels[target]? = some targetOffset ∧
      Branch.isShort (Branch.distance offset targetOffset) = true := by
  rw [Placement.mustWiden, if_neg Bool.false_ne_true] at must
  simp only [hasTarget, Placement.isFar, if_true] at must
  split at must
  · rename_i targetOffset found
    exact ⟨targetOffset, found, by simpa using must⟩
  · cases must

theorem widen_widensLive {placement : Placement} {widened next : List Bool}
    (live : WidensLive isLive pieces widened)
    (done : placement.widen isLive pieces widened = .ok next) :
    WidensLive isLive pieces next := by
  intro position found
  obtain ⟨piece, old, pieceFound, oldFound, must⟩ := widen_at done found
  rcases mustWiden_live must with rfl | ⟨alive, jump, target, rfl, hasTarget⟩
  · exact live position oldFound
  · exact ⟨alive, jump, target, pieceFound, hasTarget⟩

/-- The last round widens nothing, and gives the offsets that it has looked at. -/
theorem Rounds.last {rounds : Nat} {widened : List Bool} {layout : Layout}
    (length : widened.length = pieces.length) (live : WidensLive isLive pieces widened)
    (done : Rounds isLive pieces rounds widened (.ok layout)) :
    ∃ settled : List Bool, layout = ⟨.ofPieces pieces settled, settled.toArray⟩ ∧
      settled.length = pieces.length ∧ WidensLive isLive pieces settled ∧
      layout.widen isLive pieces settled = .ok settled := by
  generalize isOk : Except.ok layout = outcome at done
  induction done with
  | settled fits =>
    cases isOk
    exact ⟨_, rfl, length, live, fits⟩
  | failed => cases isOk
  | again widens _ _ ih =>
    refine ih (widen_length ?_ length widens) (widen_widensLive live widens) isOk
    rw [Placement.ofPieces_places.size, List.length_zip, length, Nat.min_self]

/-- No label is placed twice. -/
def DistinctLabels (pieces : List Piece) : Prop :=
  ∀ (mark : Label) (position other : Nat), pieces[position]? = some (.label mark) →
    pieces[other]? = some (.label mark) → other = position

/-- Is the piece a jump that is written in more than 16 bits? -/
def isWide (layout : Layout) (position : Nat) : Bool := layout.widened.getD position false

/-- Each piece begins where the one before it ends, with the width that it has at its offset, and a
label is where the piece after it begins. Jumps are wide only if they are live, and those that are
live but not wide reach their targets in 16 bits. -/
structure LaidOut (isLive : Nat → Bool) (pieces : List Piece) (layout : Layout) : Prop where
  offsets : layout.offsets.size = pieces.length
  widened : layout.widened.size = pieces.length
  first : layout.start 0 = 0
  next {position : Nat} {piece : Piece} : pieces[position]? = some piece →
    layout.start (position + 1) =
      layout.start position + piece.widthAt (layout.start position) (layout.isWide position)
  last : layout.start pieces.length = layout.length
  label {mark : Label} {position : Nat} : pieces[position]? = some (.label mark) →
    layout.labels[mark]? = some (layout.start (position + 1))
  placed {mark : Label} {offset : Nat} : layout.labels[mark]? = some offset →
    .label mark ∈ pieces
  wide {position : Nat} : layout.isWide position = true → isLive position = true ∧
    ∃ (jump : Branch Label) (target : Label),
      pieces[position]? = some (.branch jump) ∧ jump.jumpTarget? = some target
  short {position : Nat} {jump : Branch Label} {target : Label} :
    pieces[position]? = some (.branch jump) → jump.jumpTarget? = some target →
      isLive position = true → layout.isWide position = false →
        ∃ offset, layout.labels[target]? = some offset ∧
          Branch.isShort (Branch.distance (layout.start position) offset) = true

/-- The layout of the last round is what was asked for. -/
theorem Rounds.laidOut {rounds : Nat} {widened : List Bool} {layout : Layout}
    (distinct : DistinctLabels pieces) (length : widened.length = pieces.length)
    (live : WidensLive isLive pieces widened)
    (done : Rounds isLive pieces rounds widened (.ok layout)) :
    LaidOut isLive pieces layout := by
  obtain ⟨settled, rfl, settledLength, settledLive, fits⟩ := done.last length live
  have places : (Placement.ofPieces pieces settled).Places (pieces.zip settled) :=
    Placement.ofPieces_places
  have size : (Placement.ofPieces pieces settled).offsets.size = pieces.length := by
    rw [places.size, List.length_zip, settledLength, Nat.min_self]
  have wideAt (position : Nat) :
      isWide ⟨.ofPieces pieces settled, settled.toArray⟩ position =
        settled.getD position false := by
    simp [isWide]
  have zipped {position : Nat} {piece : Piece} (found : pieces[position]? = some piece) :
      (pieces.zip settled)[position]? = some (piece, settled.getD position false) := by
    obtain ⟨inside, rfl⟩ := List.getElem?_eq_some_iff.mp found
    rw [List.getElem?_zip_eq_some]
    refine ⟨found, ?_⟩
    rw [List.getD_eq_getElem?_getD, List.getElem?_eq_getElem (by omega), Option.getD_some]
  have next {position : Nat} {piece : Piece} (found : pieces[position]? = some piece) :=
    places.next (zipped found)
  refine ⟨size, by simpa using settledLength, places.first, ?_, ?_, ?_,
    Placement.ofPieces_labels, ?_, ?_⟩
  · intro position piece found
    rw [wideAt]
    exact next found
  · exact Placement.start_size (Nat.le_of_eq size)
  · intro mark position found
    have here := places.label (zipped found) fun other _ otherFound =>
      distinct mark position other found (List.getElem?_zip_eq_some.mp otherFound).1
    rwa [next found]
  · intro position isWide
    rw [wideAt, List.getD_eq_getElem?_getD] at isWide
    cases flag : settled[position]? with
    | none => simp [flag] at isWide
    | some wide =>
      rw [flag, Option.getD_some] at isWide
      exact settledLive position (isWide ▸ flag)
  · intro position jump target found hasTarget alive isNarrow
    obtain ⟨inside, -⟩ := List.getElem?_eq_some_iff.mp found
    rw [wideAt, List.getD_eq_getElem?_getD, List.getElem?_eq_getElem (by omega),
      Option.getD_some] at isNarrow
    have flag : settled[position]? = some false := by
      rw [List.getElem?_eq_getElem (by omega), isNarrow]
    obtain ⟨piece, old, pieceFound, oldFound, must⟩ := widen_at fits flag
    cases found.symm.trans pieceFound
    cases flag.symm.trans oldFound
    rw [alive] at must
    exact mustWiden_short hasTarget must

namespace LaidOut

variable {layout : Layout}

/-- Nothing begins after the end of the code. -/
theorem start_le (laid : LaidOut isLive pieces layout) {position : Nat}
    (inside : position ≤ pieces.length) : layout.start position ≤ layout.length := by
  induction inside using Nat.decreasingInduction with
  | self => exact Nat.le_of_eq laid.last
  | of_succ position before ih =>
    rw [laid.next (List.getElem?_eq_getElem before)] at ih
    omega

theorem labels_le (laid : LaidOut isLive pieces layout) {mark : Label} {offset : Nat}
    (found : layout.labels[mark]? = some offset) : offset ≤ layout.length := by
  obtain ⟨position, inside, isMark⟩ := List.getElem_of_mem (laid.placed found)
  have here := laid.label (List.getElem?_eq_some_iff.mpr ⟨inside, isMark⟩)
  cases found.symm.trans here
  exact laid.start_le inside

/-- Every live branch can be written in its place, and takes the room that was made for it. -/
theorem writes (laid : LaidOut isLive pieces layout) (short : layout.length ≤ 65535)
    {position : Nat} {jump : Branch Label} {placed : Branch Nat}
    (found : pieces[position]? = some (.branch jump)) (alive : isLive position = true)
    (resolved : jump.mapM (Assembly.offsetOf layout) = .ok placed) (fits : placed.FitsTable) :
    placed.Exact (layout.start position) ∧
      ∃ bytes, placed.encodeAt (layout.start position) (layout.isWide position) = .ok bytes ∧
        bytes.length = jump.widthAt (layout.start position) (layout.isWide position) := by
  have retargets := (Branch.Retargets.of_mapM resolved).imp_of_mem
    fun label _ offset offsetFound => show layout.labels[label]? = some offset by
      unfold Assembly.offsetOf at offsetFound
      grind
  have targetsFit : ∀ target ∈ placed.targets, target ≤ 65535 := by
    intro target member
    obtain ⟨label, -, labelFound⟩ := Outcome.exists_left_of_mem retargets.targets member
    exact Nat.le_trans (laid.labels_le labelFound) short
  obtain ⟨inside, -⟩ := List.getElem?_eq_some_iff.mp found
  have stop := laid.start_le inside
  rw [laid.next found, Piece.widthAt] at stop
  have reached : ∀ target, placed.jumpTarget? = some target → layout.isWide position = false →
      Branch.isShort (Branch.distance (layout.start position) target) = true := by
    intro target hasTarget narrow
    cases retargets with
    | jumpIf lead | goto lead =>
      cases hasTarget
      obtain ⟨offset, offsetFound, isShort⟩ := laid.short found rfl alive narrow
      cases lead.symm.trans offsetFound
      exact isShort
    | _ => cases hasTarget
  obtain ⟨bytes, done⟩ := Branch.encodeAt_total reached
  refine ⟨Branch.exact_of_short fits (by omega) targetsFit ?_, bytes, done, ?_⟩
  · have width : placed.widthAt (layout.start position) false ≤
        placed.widthAt (layout.start position) (layout.isWide position) := by
      cases layout.isWide position <;> cases placed <;> simp [Branch.widthAt]
    rw [retargets.widthAt _ (layout.isWide position)] at width
    omega
  · rw [Bytecode.length_encodeAt done, retargets.widthAt]

end LaidOut

/-- Widening ends with a layout that can be written. However many rounds it may take, there are at
most as many as there are pieces and one more, and their outcome is the layout that is computed. It
gives every piece its place, and every live branch can be written there, in just the room it has. -/
theorem ofPieces_written (isLive : Nat → Bool) {pieces : List Piece}
    (distinct : DistinctLabels pieces) :
    (∃ rounds ≤ pieces.length + 1,
      Rounds isLive pieces rounds (pieces.map fun _ => false) (ofPieces isLive pieces) ∧
      ∀ other outcome, Rounds isLive pieces other (pieces.map fun _ => false) outcome →
        other = rounds ∧ outcome = ofPieces isLive pieces) ∧
    ∀ layout, ofPieces isLive pieces = .ok layout → LaidOut isLive pieces layout ∧
      (layout.length ≤ 65535 → ∀ position jump placed, pieces[position]? = some (.branch jump) →
        isLive position = true → jump.mapM (Assembly.offsetOf layout) = .ok placed →
          placed.FitsTable → placed.Exact (layout.start position) ∧
            ∃ bytes, placed.encodeAt (layout.start position) (layout.isWide position) = .ok bytes ∧
              bytes.length =
                jump.widthAt (layout.start position) (layout.isWide position)) := by
  have length : (pieces.map fun _ => false).length = pieces.length := List.length_map _
  have count : (pieces.map fun _ => false).count false = pieces.length := by simp
  have live : WidensLive isLive pieces (pieces.map fun _ => false) := by
    intro position found
    rw [List.getElem?_map] at found
    cases piece : pieces[position]? <;> simp [piece] at found
  obtain ⟨rounds, few, run⟩ := @settle_rounds isLive pieces _ _ length
    (show _ < pieces.length + 1 by omega)
  rw [count] at few
  refine ⟨⟨rounds, few, run, fun other outcome later => run.unique later⟩, fun layout done => ?_⟩
  have laid : LaidOut isLive pieces layout := by
    have last : Rounds isLive pieces rounds _ (ofPieces isLive pieces) := run
    rw [done] at last
    exact last.laidOut distinct length live
  exact ⟨laid, fun short position jump placed found alive resolved fits =>
    laid.writes short found alive resolved fits⟩

/-- A long way, a jump back over it, and a switch that the wide jump moves. -/
def wayBack : List Piece :=
  [.label ⟨0⟩, .fixed 40000, .branch (.goto ⟨0⟩), .branch (.tableSwitch ⟨0⟩ 7 [⟨0⟩])]

theorem wayBack_distinct : DistinctLabels wayBack := by
  intro mark position other found otherFound
  have first {place : Nat} (found : wayBack[place]? = some (.label mark)) : place = 0 := by
    match place with
    | 0 => rfl
    | 1 | 2 | 3 => simp [wayBack] at found
    | place + 4 => simp [wayBack] at found
  rw [first found, first otherFound]

theorem wayBack_ofPieces : (fun layout : Layout =>
    (layout.offsets.toList, layout.widened.toList, layout.length)) <$>
      ofPieces (fun _ => true) wayBack =
        .ok ([0, 0, 40000, 40005], [false, false, true, false], 40024) := by
  cbv

theorem wayBack_written : DistinctLabels wayBack ∧ ∃ layout : Layout,
    (∃ rounds ≤ 5, Rounds (fun _ => true) wayBack rounds [false, false, false, false]
      (.ok layout)) ∧
    layout.offsets.toList = [0, 0, 40000, 40005] ∧
    layout.widened.toList = [false, false, true, false] ∧
    layout.labels[(⟨0⟩ : Label)]? = some 0 ∧
    ∃ bytes, (Branch.tableSwitch 0 7 [0]).encodeAt 40005 false = .ok bytes ∧
      bytes.length = 19 := by
  obtain ⟨⟨rounds, few, run, -⟩, written⟩ := ofPieces_written (fun _ => true) wayBack_distinct
  obtain ⟨layout, done, same⟩ := Outcome.map_ok.mp wayBack_ofPieces
  obtain ⟨laid, writes⟩ := written layout done
  simp only [Prod.mk.injEq] at same
  obtain ⟨offsets, widened, length⟩ := same
  have offsetsArray : layout.offsets = #[0, 0, 40000, 40005] := Array.toList_inj.mp offsets
  have widenedArray : layout.widened = #[false, false, true, false] := Array.toList_inj.mp widened
  have label : layout.labels[(⟨0⟩ : Label)]? = some 0 := by
    rw [laid.label (show wayBack[0]? = some (.label ⟨0⟩) from rfl), Placement.start, offsetsArray]
    rfl
  have resolved : (Branch.tableSwitch (⟨0⟩ : Label) 7 [⟨0⟩]).mapM (Assembly.offsetOf layout) =
      .ok (.tableSwitch 0 7 [0]) := by
    have found : Assembly.offsetOf layout ⟨0⟩ = .ok 0 := by rw [Assembly.offsetOf, label]
    rw [Branch.mapM, List.mapM_cons, List.mapM_nil, found]
    rfl
  have fits : (Branch.tableSwitch 0 7 [0]).FitsTable := ⟨by decide, by decide⟩
  obtain ⟨-, bytes, encoded, width⟩ := writes (by omega) 3 _ _ rfl rfl resolved fits
  rw [Placement.start, isWide, offsetsArray, widenedArray] at encoded width
  exact ⟨wayBack_distinct, layout, ⟨rounds, few, done ▸ run⟩, offsets, widened, label, bytes,
    encoded, width.trans (by simp [Branch.widthAt, Branch.switchPadding])⟩

end Layout

end ClassWeave
