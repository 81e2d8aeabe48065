import Std.Data.HashMap
import Std.Data.HashSet
import ClassWeave.ClassFile.Attribute
import ClassWeave.Code.Body
import ClassWeave.Code.Bytecode
import ClassWeave.Code.Offsets

/-!
# From bytecode to bodies

Turns the code of a method into a body. Offsets that anything refers to get labels, numbered by
ascending offset, and must be where an instruction starts; operands are spelt out. Entries of the
debugging tables that do not fit the instructions are dropped.
-/

namespace ClassWeave

namespace Disassembly

/-- The offsets where instructions start. -/
abbrev Boundaries := Std.HashSet Nat

/-- The targets of all jumps, each of which must be where an instruction starts. -/
def jumpTargets (boundaries : Boundaries) :
    List (Nat × RawInstruction) → (seen : List Nat) → Except Fault (List Nat)
  | [], seen => .ok seen
  | (offset, instruction) :: rest, seen =>
    match instruction.targets.find? (!boundaries.contains ·) with
    | some target => .error (.malformed (.targetInsideInstruction offset target))
    | none => jumpTargets boundaries rest (instruction.targets ++ seen)

/-- Is an offset the start of an instruction, or the end of the code? -/
def isEdge (boundaries : Boundaries) (size offset : Nat) : Bool :=
  boundaries.contains offset || offset == size

/-- The offsets in exception entries, each of which must line up with the instructions. -/
def exceptionOffsets (boundaries : Boundaries) (size : Nat) :
    List ExceptionEntry → (seen : List Nat) → Except Fault (List Nat)
  | [], seen => .ok seen
  | entry :: rest, seen =>
    let start := entry.start.toNat
    let stop := entry.stop.toNat
    let handler := entry.handler.toNat
    if !boundaries.contains start || !isEdge boundaries size stop || stop ≤ start then
      .error (.malformed (.misalignedRange start stop))
    else if !boundaries.contains handler then .error (.malformed (.misalignedHandler handler))
    else exceptionOffsets boundaries size rest (start :: stop :: handler :: seen)

/-- A variable entry with its ends as offsets. -/
structure RawVariable where
  start : Nat
  stop : Nat
  entry : VariableEntry
  inTypeTable : Bool

/-- What the debugging tables of a method say, entries in reverse order. -/
structure DebugTables where
  lines : List (Nat × UInt16)
  localVariables : List RawVariable

def addVariables (boundaries : Boundaries) (size : Nat) (inTypeTable : Bool)
    (tables : DebugTables) (entries : List VariableEntry) : DebugTables :=
  entries.foldl (fun tables entry =>
    let start := entry.start.toNat
    let stop := start + entry.length.toNat
    if boundaries.contains start && isEdge boundaries size stop then
      { tables with localVariables := ⟨start, stop, entry, inTypeTable⟩ :: tables.localVariables }
    else tables) tables

def readDebugTables (boundaries : Boundaries) (size : Nat) (constants : ConstantTable) :
    List Attribute → DebugTables → Except Fault DebugTables
  | [], tables => .ok tables
  | attr :: rest, tables => do
    let name ← attr.name constants
    if name == AttributeKind.lineNumberTable.name then
      let entries ← attr.decodeLines
      let kept := entries.filter fun entry => boundaries.contains entry.start.toNat
      readDebugTables boundaries size constants rest
        { tables with
          lines := (kept.map fun entry => (entry.start.toNat, entry.line)).reverse ++ tables.lines }
    else if name == AttributeKind.localVariableTable.name then
      let entries ← attr.decodeVariables .localVariableTable
      readDebugTables boundaries size constants rest
        (addVariables boundaries size false tables entries)
    else if name == AttributeKind.localVariableTypeTable.name then
      let entries ← attr.decodeVariables .localVariableTypeTable
      readDebugTables boundaries size constants rest
        (addVariables boundaries size true tables entries)
    else readDebugTables boundaries size constants rest tables

/-- Numbers the offsets in ascending order. -/
def labelOffsets (offsets : List Nat) : List (Nat × Label) :=
  (Offsets.sorted offsets).zipIdx.map fun (offset, index) => (offset, ⟨index⟩)

def labelAt (labels : Std.HashMap Nat Label) (offset : Nat) : Except Fault Label :=
  match labels[offset]? with
  | some label => .ok label
  | none => .error (.malformed (.noBoundary offset))

/-- Spells out an instruction. -/
def itemOf (labels : Std.HashMap Nat Label) (constants : ConstantTable) :
    RawInstruction → Except Fault Item
  | .straight instruction => .instruction <$> instruction.mapM constants.operand
  | .branch branch => .branch <$> branch.mapM (labelAt labels)

/-- The items before an instruction: its label, then its line numbers. -/
def marksAt (labels : Std.HashMap Nat Label) (lines : Std.HashMap Nat (List UInt16))
    (offset : Nat) : List Item :=
  (labels[offset]?).toList.map Item.label ++ (lines.getD offset []).map Item.line

/-- The items of the instructions, after the reversed items `seen`. -/
def itemsOf (labels : Std.HashMap Nat Label) (lines : Std.HashMap Nat (List UInt16))
    (constants : ConstantTable) (seen : List Item) :
    List (Nat × RawInstruction) → Except Fault (List Item)
  | [] => .ok seen
  | (offset, instruction) :: rest => do
    let item ← itemOf labels constants instruction
    itemsOf labels lines constants (item :: (marksAt labels lines offset).reverse ++ seen) rest

def handlerOf (labels : Std.HashMap Nat Label) (constants : ConstantTable)
    (entry : ExceptionEntry) : Except Fault Handler := do
  let catchType ←
    if entry.catchType == 0 then pure none else some <$> constants.binaryName entry.catchType
  let start ← labelAt labels entry.start.toNat
  let stop ← labelAt labels entry.stop.toNat
  let target ← labelAt labels entry.handler.toNat
  return ⟨start, stop, target, catchType⟩

def variableOf (labels : Std.HashMap Nat Label) (raw : RawVariable) :
    Except Fault VariableRange := do
  let start ← labelAt labels raw.start
  let stop ← labelAt labels raw.stop
  return ⟨start, stop, raw.entry.nameIndex, raw.entry.descriptorIndex, raw.entry.slot,
    raw.inTypeTable⟩

/-- Lines by offset, each offset's in table order, from entries in reverse order. -/
def linesByOffset (lines : List (Nat × UInt16)) : Std.HashMap Nat (List UInt16) :=
  lines.foldl (fun table (offset, line) => table.insert offset (line :: table.getD offset [])) ∅

end Disassembly

open Disassembly in
/-- The body that the code of a method spells. -/
def Body.ofCode (code : CodeAttribute) (constants : ConstantTable) : Except Fault Body := do
  let instructions ← Bytecode.split code.code
  let size := code.code.length
  let boundaries : Boundaries := Std.HashSet.ofList (instructions.map Prod.fst)
  let targets ← jumpTargets boundaries instructions []
  let offsets ← exceptionOffsets boundaries size code.exceptions targets
  let tables ← readDebugTables boundaries size constants code.attributes ⟨[], []⟩
  let variableOffsets := tables.localVariables.flatMap fun raw => [raw.start, raw.stop]
  let labelled := labelOffsets (variableOffsets ++ offsets)
  let labels : Std.HashMap Nat Label := Std.HashMap.ofList labelled
  let items ← itemsOf labels (linesByOffset tables.lines) constants [] instructions
  let items := ((labels[size]?).toList.map Item.label ++ items).reverse
  let handlers ← code.exceptions.mapM (handlerOf labels constants)
  let localVariables ← tables.localVariables.reverse.mapM (variableOf labels)
  return ⟨items, handlers, localVariables, ⟨labelled.length⟩⟩

end ClassWeave
