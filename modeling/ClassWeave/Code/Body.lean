import ClassWeave.Code.Branch
import ClassWeave.Code.Instruction

/-!
# Method bodies

A body is a list of items: instructions with operands spelt out, and between them labels and line
numbers. Jumps, exception ranges and variable ranges all refer to labels, so items can be put in
anywhere.
-/

namespace ClassWeave

inductive Item where
  /-- Marks the position of the next instruction. -/
  | label (mark : Label)
  /-- The source line of the instructions that follow. -/
  | line (number : UInt16)
  | instruction (step : SymInstruction)
  | branch (jump : Branch Label)

/-- A protected range, its end excluded, and where exceptions that leave it go. -/
structure Handler where
  start : Label
  stop : Label
  target : Label
  /-- The exceptions that are caught; `none` is all of them. -/
  catchType : Option BinaryName
  deriving DecidableEq, Repr

/-- Where a local variable is known to a debugger. Its name and its type, or its generic signature
in the type table, are constants of the class file. -/
structure VariableRange where
  start : Label
  stop : Label
  nameIndex : ConstantIndex
  descriptorIndex : ConstantIndex
  slot : UInt16
  inTypeTable : Bool
  deriving DecidableEq, Repr

structure Body where
  items : List Item
  handlers : List Handler
  localVariables : List VariableRange
  /-- The first label from which on none is used. -/
  nextLabel : Label

namespace Item

/-- Is this item one that is executed? -/
def isCode : Item → Bool
  | instruction _ | branch _ => true
  | label _ | line _ => false

def label? : Item → Option Label
  | label mark => some mark
  | _ => none

end Item

namespace Body

def empty : Body := ⟨[], [], [], ⟨0⟩⟩

/-- The labels with their positions among the items, in the order of the items. -/
def placedLabels (body : Body) : List (Label × Nat) :=
  body.items.zipIdx.filterMap fun (item, position) => item.label?.map (·, position)

end Body

end ClassWeave
