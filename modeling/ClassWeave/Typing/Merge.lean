import ClassWeave.Typing.Frame
import ClassWeave.Typing.Hierarchy

/-!
# Merging frames

Where two paths meet, a frame that holds on both takes the place of theirs. Locals that have nothing
in common become unusable; stack values that have nothing in common are a fault.
-/

namespace ClassWeave

namespace Hierarchy

variable (hierarchy : Hierarchy)

/-- The closest type that both values can be used as, if there is one. -/
def mergeTypes : VType → VType → Except Fault (Option VType)
  | .object a, .object b => (fun type => some (.object type)) <$> hierarchy.mergeReferences a b
  | .null, .object type | .object type, .null => .ok (some (.object type))
  | a, b => .ok (if a = b then some a else none)

/-- Merges slot by slot, after the reversed locals in `seen`. A slot that is covered by the two-slot
local before it is unusable. -/
def mergeSlots (covered : Bool) (seen : List VType) :
    List (VType × VType) → Except Fault (List VType)
  | [] => .ok seen
  | (a, b) :: rest =>
    if covered then mergeSlots false (.top :: seen) rest
    else do
      let merged := (← hierarchy.mergeTypes a b).getD .top
      mergeSlots (merged.width == 2) (merged :: seen) rest

/-- Locals by slot, the shorter list filled up with unusable ones. -/
def alignLocals (a b : List VType) : List (VType × VType) :=
  (a ++ List.replicate (b.length - a.length) VerificationType.top).zip
    (b ++ List.replicate (a.length - b.length) VerificationType.top)

/-- Merged locals do not end in an unusable one. -/
def mergeLocals (a b : List VType) : Except Fault (List VType) := do
  let merged ← hierarchy.mergeSlots false [] (alignLocals a b)
  return (merged.dropWhile (· = .top)).reverse

/-- Merges two values that are at the same place on the stack. -/
def mergeStackValue (item : Nat) (a b : VType) : Except Fault VType := do
  match ← hierarchy.mergeTypes a b with
  | some type => return type
  | none => throw (.incompatibleFrames item .types)

/-- Stacks are merged from the bottom up. -/
def mergeStacks (item : Nat) (a b : List VType) : Except Fault (List VType) :=
  if a.length = b.length then
    List.reverse <$> (a.reverse.zip b.reverse).mapM fun (a, b) =>
      hierarchy.mergeStackValue item a b
  else .error (.incompatibleFrames item .heights)

/-- The closest frame that both can be used as, at a position named in faults. -/
def mergeFrames (item : Nat) (existing incoming : VFrame) : Except Fault VFrame := do
  let stack ← hierarchy.mergeStacks item existing.stack incoming.stack
  let locals ← hierarchy.mergeLocals existing.locals incoming.locals
  return ⟨locals, stack⟩

end Hierarchy

end ClassWeave
