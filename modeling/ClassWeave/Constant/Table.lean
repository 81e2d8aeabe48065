import ClassWeave.Constant.Basic

/-!
# Constant tables

The constants of a class file by slot. The slot after an eight-byte number holds nothing, nor does
slot 0. Every lookup checks that it found a constant of the wanted kind.
-/

namespace ClassWeave

structure ConstantTable where
  slots : Array (Option Constant)
  deriving Repr

namespace ConstantTable

/-- The table without constants: slot 0 alone. -/
def empty : ConstantTable := ⟨#[none]⟩

/-- One more than the last slot in use. -/
def size (table : ConstantTable) : Nat := table.slots.size

/-- Puts a constant into the next free slot. -/
def push (table : ConstantTable) (constant : Constant) : ConstantTable :=
  let slots := table.slots.push (some constant)
  ⟨if constant.width == 2 then slots.push none else slots⟩

def ofList (constants : List Constant) : ConstantTable := constants.foldl push empty

def get? (table : ConstantTable) (slot : Nat) : Option Constant := (table.slots[slot]?).join

/-- The constants with their slots, in slot order. -/
def entries (table : ConstantTable) : List (Nat × Constant) :=
  table.slots.toList.zipIdx.filterMap fun (constant, slot) => constant.map (slot, ·)

/-- The constants in slot order. -/
def toList (table : ConstantTable) : List Constant := table.slots.toList.filterMap id

/-- The table after its size, of which 16 bits are kept. -/
def encode (table : ConstantTable) : Bytes :=
  Bytes.ofUInt16 (UInt16.ofNat table.size) ++ table.toList.flatMap Constant.encode

/-- Fills the given number of slots. -/
def readSlots (table : ConstantTable) : Nat → Reader ConstantTable
  | 0 => return table
  | 1 => do
    let constant ← Constant.read
    if constant.width == 2 then Reader.fail (.malformed .wideConstantOverrun)
    else return table.push constant
  | count + 2 => do
    let constant ← Constant.read
    if constant.width == 2 then readSlots (table.push constant) count
    else readSlots (table.push constant) (count + 1)

def read : Reader ConstantTable := do
  let size ← Reader.uint16
  if size == 0 then Reader.fail (.malformed .wideConstantOverrun)
  else readSlots empty (size.toNat - 1)

section Lookups

variable (table : ConstantTable)

def constant (index : ConstantIndex) : Except Fault Constant :=
  match table.get? index.toNat with
  | some constant => .ok constant
  | none => .error (.missingConstant index)

def utf8 (index : ConstantIndex) : Except Fault String := do
  match ← table.constant index with
  | .utf8 text => return text
  | _ => throw (.badConstant index .utf8)

/-- The type that a class constant stands for. -/
def classType (index : ConstantIndex) : Except Fault RefType := do
  match ← table.constant index with
  | .classRef name =>
    let text ← table.utf8 name
    match RefType.ofClassName text with
    | .ok type => return type
    | .error cause => throw (.invalidClassName text cause)
  | _ => throw (.badConstant index .classRef)

/-- The class that a class constant stands for, which must not be an array. -/
def binaryName (index : ConstantIndex) : Except Fault BinaryName := do
  match ← table.classType index with
  | .object name => return name
  | .array _ _ => throw (.badConstant index .plainClass)

def nameAndType (index : ConstantIndex) : Except Fault (String × String) := do
  match ← table.constant index with
  | .nameAndType name descriptor => return (← table.utf8 name, ← table.utf8 descriptor)
  | _ => throw (.badConstant index .nameAndType)

end Lookups

end ConstantTable

/-- Turns a reading of a descriptor into one that reports faults of a class file. -/
def parseDescriptor {α : Type} (parse : String → Except DescriptorError α) (text : String) :
    Except Fault α :=
  match parse text with
  | .ok value => .ok value
  | .error cause => .error (.badDescriptor text cause)

/-- The name in a name-and-type constant, and its descriptor as `parse` reads it. -/
def ConstantTable.nameAndDescriptor {α : Type} (table : ConstantTable)
    (parse : String → Except DescriptorError α) (index : ConstantIndex) :
    Except Fault (String × α) := do
  let (name, descriptor) ← table.nameAndType index
  return (name, ← parseDescriptor parse descriptor)

end ClassWeave
