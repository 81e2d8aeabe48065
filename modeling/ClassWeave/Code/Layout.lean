import Std.Data.HashMap
import ClassWeave.Code.Branch
import ClassWeave.Code.Label
import ClassWeave.Fault

/-!
# Layout

Gives every piece of a body its offset. A jump that 16 bits cannot span is widened, which moves what
follows and can put other jumps out of reach, so the pieces are placed again until all jumps fit. A
jump that is wide stays wide, so this ends.
-/

namespace ClassWeave

/-- A piece of a body as layout sees it. -/
inductive Piece where
  | label (mark : Label)
  /-- Something whose width does not depend on where it stands. -/
  | fixed (width : Nat)
  | branch (jump : Branch Label)

/-- The offsets of pieces, for given widened jumps. -/
structure Placement where
  offsets : Array Nat
  labels : Std.HashMap Label Nat
  length : Nat

structure Layout extends Placement where
  widened : Array Bool

namespace Placement

def empty : Placement := ⟨#[], ∅, 0⟩

/-- Places a piece after the others. -/
def add (placement : Placement) (piece : Piece) (widened : Bool) : Placement :=
  let ⟨offsets, labels, offset⟩ := placement
  match piece with
  | .label mark => ⟨offsets.push offset, labels.insert mark offset, offset⟩
  | .fixed width => ⟨offsets.push offset, labels, offset + width⟩
  | .branch jump => ⟨offsets.push offset, labels, offset + jump.widthAt offset widened⟩

def ofPieces (pieces : List Piece) (widened : List Bool) : Placement :=
  (pieces.zip widened).foldl (fun placement (piece, widened) => placement.add piece widened) empty

/-- Is a jump from an offset to a label too far for 16 bits? -/
def isFar (placement : Placement) (offset : Nat) (target : Label) : Except Fault Bool :=
  match placement.labels[target]? with
  | some targetOffset => .ok (!Branch.isShort (Branch.distance offset targetOffset))
  | none => .error (.malformed (.undefinedJumpLabel target))

/-- Must a piece be wide? Only jumps that are live and not switches ever are. -/
def mustWiden (placement : Placement) (isLive widened : Bool) (offset : Nat) (piece : Piece) :
    Except Fault Bool :=
  if widened then .ok true
  else
    match piece with
    | .branch jump =>
      match jump.jumpTarget? with
      | some target => if isLive then placement.isFar offset target else .ok false
      | none => .ok false
    | _ => .ok false

/-- The jumps that must be wide, given those that are. -/
def widen (placement : Placement) (isLive : Nat → Bool) (pieces : List Piece)
    (widened : List Bool) : Except Fault (List Bool) :=
  ((pieces.zip widened).zip placement.offsets.toList).zipIdx.mapM
    fun (((piece, widened), offset), position) =>
      placement.mustWiden (isLive position) widened offset piece

end Placement

namespace Layout

/-- Places the pieces until no more jumps have to be widened, for at most `fuel` rounds. -/
def settle (isLive : Nat → Bool) (pieces : List Piece) :
    (fuel : Nat) → (widened : List Bool) → Except Fault Layout
  | 0, widened => .ok ⟨.ofPieces pieces widened, widened.toArray⟩
  | fuel + 1, widened => do
    let placement := Placement.ofPieces pieces widened
    let next ← placement.widen isLive pieces widened
    if next = widened then return ⟨placement, widened.toArray⟩
    else settle isLive pieces fuel next

/-- Every round but the last widens a jump, so one round more than there are pieces is enough. -/
def ofPieces (isLive : Nat → Bool) (pieces : List Piece) : Except Fault Layout :=
  settle isLive pieces (pieces.length + 1) (pieces.map fun _ => false)

end Layout

end ClassWeave
