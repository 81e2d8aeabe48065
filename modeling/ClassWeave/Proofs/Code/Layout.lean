import Mathlib.Data.List.Induction
import ClassWeave.Code.Layout
import ClassWeave.Proofs.Outcome

/-!
# Where pieces are placed

Pieces are placed one after the other, each as far from the next as it is wide. However many rounds
it takes to find the jumps that must be wide, the offsets are those for the jumps that are.
-/

namespace ClassWeave

/-- The number of bytes that a piece takes at an offset. -/
def Piece.widthAt (offset : Nat) (widened : Bool) : Piece → Nat
  | label _ => 0
  | fixed width => width
  | branch jump => jump.widthAt offset widened

namespace Placement

/-- Where a piece begins. Past the last one, this is the end of the code. -/
def start (placement : Placement) (position : Nat) : Nat :=
  placement.offsets.getD position placement.length

/-- The pieces come one after the other, and labels know where they are. -/
structure Places (placement : Placement) (pairs : List (Piece × Bool)) : Prop where
  size : placement.offsets.size = pairs.length
  first : placement.start 0 = 0
  next {position : Nat} {piece : Piece} {widened : Bool} :
    pairs[position]? = some (piece, widened) → placement.start (position + 1) =
      placement.start position + piece.widthAt (placement.start position) widened
  label {mark : Label} {position : Nat} {widened : Bool} :
    pairs[position]? = some (.label mark, widened) →
      (∀ other widened, pairs[other]? = some (.label mark, widened) → other = position) →
        placement.labels[mark]? = some (placement.start position)

theorem empty_places : empty.Places [] where
  size := rfl
  first := rfl
  next found := by simp at found
  label found := by simp at found

theorem start_size {placement : Placement} {position : Nat}
    (past : placement.offsets.size ≤ position) : placement.start position = placement.length := by
  simp [start, Array.getElem?_eq_none past]

theorem add_length (placement : Placement) (piece : Piece) (widened : Bool) :
    (placement.add piece widened).length =
      placement.length + piece.widthAt placement.length widened := by
  cases piece <;> rfl

theorem add_offsets (placement : Placement) (piece : Piece) (widened : Bool) :
    (placement.add piece widened).offsets = placement.offsets.push placement.length := by
  cases piece <;> rfl

theorem add_start {placement : Placement} {piece : Piece} {widened : Bool} {position : Nat}
    (inside : position ≤ placement.offsets.size) :
    (placement.add piece widened).start position = placement.start position := by
  rw [start, add_offsets, Array.getD_eq_getD_getElem?, Array.getElem?_push]
  split
  · rename_i last
    rw [start_size (Nat.le_of_eq last.symm)]
    rfl
  · have earlier : position < placement.offsets.size := by omega
    simp [start, Array.getElem?_eq_getElem earlier]

theorem add_labels_ne {placement : Placement} {piece : Piece} {widened : Bool} {mark : Label}
    (other : piece ≠ .label mark) :
    (placement.add piece widened).labels[mark]? = placement.labels[mark]? := by
  cases piece with
  | label placed =>
    have different : placed ≠ mark := by
      rintro rfl
      exact other rfl
    simp [add, Std.HashMap.getElem?_insert, different]
  | fixed | branch => rfl

private theorem getElem?_concat {α : Type} {values : List α} {last value : α} {position : Nat}
    (found : (values ++ [last])[position]? = some value) :
    values[position]? = some value ∧ position < values.length ∨
      position = values.length ∧ last = value := by
  rw [List.getElem?_append] at found
  split at found
  · rename_i inside
    exact .inl ⟨found, inside⟩
  · obtain ⟨inside, same⟩ := List.getElem?_eq_some_iff.mp found
    rw [List.getElem_singleton] at same
    rw [List.length_singleton] at inside
    exact .inr ⟨by omega, same⟩

/-- Adding a piece leaves those before it where they are. -/
theorem Places.add {placement : Placement} {pairs : List (Piece × Bool)}
    (places : placement.Places pairs) (piece : Piece) (widened : Bool) :
    (placement.add piece widened).Places (pairs ++ [(piece, widened)]) := by
  have size := places.size
  refine ⟨by simp [add_offsets, size], ?_, ?_, ?_⟩
  · rw [add_start (Nat.zero_le _), places.first]
  · intro position other wide found
    rcases getElem?_concat found with ⟨earlier, inside⟩ | ⟨rfl, same⟩
    · rw [add_start (by omega), add_start (by omega)]
      exact places.next earlier
    · cases same
      have last : (placement.add piece widened).start pairs.length = placement.length := by
        rw [add_start (by omega), start_size (by omega)]
      rw [last, start_size (by simp [add_offsets, size]), add_length]
  · intro mark position wide found unique
    rcases getElem?_concat found with ⟨earlier, inside⟩ | ⟨rfl, same⟩
    · have other : piece ≠ .label mark := by
        rintro rfl
        have last := unique pairs.length widened List.getElem?_concat_length
        omega
      rw [add_start (by omega), add_labels_ne other]
      exact places.label earlier fun place wide later => unique place wide
        ((List.getElem?_append_left (List.getElem?_eq_some_iff.mp later).1).trans later)
    · cases same
      rw [add_start (by omega), start_size (by omega)]
      simp [Placement.add]

theorem ofPieces_places {pieces : List Piece} {widened : List Bool} :
    (ofPieces pieces widened).Places (pieces.zip widened) := by
  unfold ofPieces
  induction pieces.zip widened using List.reverseRecOn with
  | nil => exact empty_places
  | append_singleton pairs pair ih =>
    rw [List.foldl_append]
    exact ih.add pair.1 pair.2

end Placement

namespace Layout

/-- Only jumps with one target are widened. -/
def WidensJumps (pieces : List Piece) (widened : List Bool) : Prop :=
  ∀ position : Nat, widened[position]? = some true → ∃ (jump : Branch Label) (target : Label),
    pieces[position]? = some (.branch jump) ∧ jump.jumpTarget? = some target

/-- Only jumps that are live are widened. -/
theorem mustWiden_live {placement : Placement} {live old : Bool} {offset : Nat} {piece : Piece}
    (must : placement.mustWiden live old offset piece = .ok true) :
    old = true ∨ live = true ∧ ∃ jump target, piece = .branch jump ∧
      jump.jumpTarget? = some target := by
  unfold Placement.mustWiden at must
  grind

theorem widen_length {placement : Placement} {isLive : Nat → Bool} {pieces : List Piece}
    {widened next : List Bool} (places : placement.offsets.size = pieces.length)
    (length : widened.length = pieces.length)
    (done : placement.widen isLive pieces widened = .ok next) : next.length = pieces.length := by
  have size := (Outcome.mapM_ok.mp done).length_eq
  simp only [List.length_zipIdx, List.length_zip, Array.length_toList, places, length,
    Nat.min_self] at size
  exact size.symm

/-- What a round finds at a position depends on the piece and on where it was placed. -/
theorem widen_at {placement : Placement} {isLive : Nat → Bool} {pieces : List Piece}
    {widened next : List Bool}
    (done : placement.widen isLive pieces widened = .ok next) {position : Nat} {wide : Bool}
    (found : next[position]? = some wide) :
    ∃ piece old, pieces[position]? = some piece ∧ widened[position]? = some old ∧
      placement.mustWiden (isLive position) old (placement.start position) piece = .ok wide := by
  have each := Outcome.mapM_ok.mp done
  obtain ⟨inside, rfl⟩ := List.getElem?_eq_some_iff.mp found
  have bound := each.length_eq ▸ inside
  have must := each.get bound inside
  simp only [List.length_zipIdx, List.length_zip, Array.length_toList] at bound
  simp only [List.get_eq_getElem, List.getElem_zipIdx, List.getElem_zip, Nat.zero_add,
    Array.getElem_toList] at must
  refine ⟨_, _, List.getElem?_eq_getElem (by omega), List.getElem?_eq_getElem (by omega), ?_⟩
  rwa [Placement.start, Array.getD_eq_getD_getElem?, Array.getElem?_eq_getElem (by omega)]

theorem widen_widensJumps {placement : Placement} {isLive : Nat → Bool} {pieces : List Piece}
    {widened next : List Bool} (jumps : WidensJumps pieces widened)
    (done : placement.widen isLive pieces widened = .ok next) : WidensJumps pieces next := by
  intro position found
  obtain ⟨piece, old, pieceFound, oldFound, must⟩ := widen_at done found
  rcases mustWiden_live must with rfl | ⟨-, jump, target, rfl, hasTarget⟩
  · exact jumps position oldFound
  · exact ⟨jump, target, pieceFound, hasTarget⟩

/-- What is left when all rounds are over. -/
structure Settled (pieces : List Piece) (layout : Layout) : Prop where
  places : layout.Places (pieces.zip layout.widened.toList)
  length : layout.widened.size = pieces.length
  widensJumps : WidensJumps pieces layout.widened.toList

theorem settle_settled {isLive : Nat → Bool} {pieces : List Piece} {fuel : Nat}
    {widened : List Bool} {layout : Layout} (length : widened.length = pieces.length)
    (jumps : WidensJumps pieces widened) (done : settle isLive pieces fuel widened = .ok layout) :
    Settled pieces layout := by
  induction fuel generalizing widened with
  | zero =>
    cases done
    exact ⟨Placement.ofPieces_places, length, jumps⟩
  | succ fuel ih =>
    obtain ⟨next, nextFound, later⟩ := Outcome.bind_ok.mp done
    split at later
    · cases Outcome.pure_ok.mp later
      exact ⟨Placement.ofPieces_places, length, jumps⟩
    · have places : (Placement.ofPieces pieces widened).offsets.size = pieces.length := by
        rw [Placement.ofPieces_places.size, List.length_zip, length, Nat.min_self]
      exact ih (widen_length places length nextFound)
        (widen_widensJumps jumps nextFound) later

theorem ofPieces_settled {isLive : Nat → Bool} {pieces : List Piece} {layout : Layout}
    (done : ofPieces isLive pieces = .ok layout) : Settled pieces layout := by
  refine settle_settled (by simp) (fun position found => ?_) done
  rw [List.getElem?_map] at found
  cases piece : pieces[position]? <;> simp [piece] at found

end Layout

end ClassWeave
