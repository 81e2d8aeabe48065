import ClassWeave.Bytes.Reader
import ClassWeave.Code.Branch
import ClassWeave.Code.Instruction

/-!
# Reading bytecode

Splits the bytes of a method into instructions with pooled operands and offsets as targets. The two
opcodes of subroutines and the unassigned ones are refused.
-/

namespace ClassWeave

/-- An instruction as it stands in bytecode. -/
inductive RawInstruction where
  | straight (step : PoolInstruction)
  | branch (jump : Branch Nat)

namespace RawInstruction

def targets : RawInstruction → List Nat
  | straight _ => []
  | branch jump => jump.targets

end RawInstruction

namespace Bytecode

def slotKinds : List SlotKind := [.int, .long, .float, .double, .reference]

def slotKindOf (index : Nat) : SlotKind := slotKinds.getD index .reference

def comparisons : List Comparison := [.eq, .ne, .lt, .ge, .gt, .le]

def comparisonOf (index : Nat) : Comparison := comparisons.getD index .le

def returnKinds : List ReturnKind := [.int, .long, .float, .double, .reference, .void]

def returnKindOf (index : Nat) : ReturnKind := returnKinds.getD index .void

def baseTypes : List BaseType :=
  [.boolean, .char, .float, .double, .byte, .short, .int, .long]

/-- The target of a jump over a distance. -/
def jumpTo (offset : Nat) (distance : Int) : Reader Nat :=
  let target := offset + distance
  if target < 0 then Reader.fail (.malformed (.negativeTarget offset target))
  else return target.toNat

def shortJump (offset : Nat) : Reader Nat := do
  jumpTo offset (← Reader.int16).toInt

def wideJump (offset : Nat) : Reader Nat := do
  jumpTo offset (← Reader.int32).toInt

def straight (instruction : PoolInstruction) : Reader RawInstruction :=
  return .straight instruction

def conditional (offset : Nat) (test : Test) : Reader RawInstruction := do
  return .branch (.jumpIf test (← shortJump offset))

def readTableSwitch (offset : Nat) : Reader RawInstruction := do
  let _ ← Reader.times Reader.uint8 (Branch.switchPadding offset)
  let default ← wideJump offset
  let low ← Reader.int32
  let high ← Reader.int32
  if high < low then Reader.fail (.malformed (.emptySwitchRange offset low high))
  else
    let count := (high.toInt - low.toInt + 1).toNat
    return .branch (.tableSwitch default low (← Reader.times (wideJump offset) count))

def readLookupSwitch (offset : Nat) : Reader RawInstruction := do
  let _ ← Reader.times Reader.uint8 (Branch.switchPadding offset)
  let default ← wideJump offset
  let count ← Reader.int32
  if count < 0 then Reader.fail (.malformed (.negativePairCount offset))
  else
    let case : Reader (Int32 × Nat) := do
      let key ← Reader.int32
      return (key, ← wideJump offset)
    return .branch (.lookupSwitch default (← Reader.times case count.toInt.toNat))

def readNewArray (offset : Nat) : Reader RawInstruction := do
  let code ← Reader.uint8
  match baseTypes.find? (·.arrayCode == code) with
  | some type => straight (.newPrimitiveArray type)
  | none => Reader.fail (.malformed (.badArrayType offset code))

/-- What follows the prefix that makes slots two bytes wide. -/
def readWide (offset : Nat) : Reader RawInstruction := do
  let opcode ← Reader.uint8
  let slot ← Reader.uint16
  let code := opcode.toNat
  if 0x15 ≤ code ∧ code ≤ 0x19 then straight (.load (slotKindOf (code - 0x15)) slot)
  else if 0x36 ≤ code ∧ code ≤ 0x3A then straight (.store (slotKindOf (code - 0x36)) slot)
  else if code = 0x84 then straight (.increment slot (← Reader.int16))
  else Reader.fail (.unsupportedOpcode opcode offset)

/-- Reads what an opcode with operands needs. -/
def readOperands (offset : Nat) (opcode : UInt8) : Reader RawInstruction :=
  let code := opcode.toNat
  if 0x1A ≤ code ∧ code ≤ 0x2D then
    straight (.load (slotKindOf ((code - 0x1A) / 4)) (UInt16.ofNat ((code - 0x1A) % 4)))
  else if 0x3B ≤ code ∧ code ≤ 0x4E then
    straight (.store (slotKindOf ((code - 0x3B) / 4)) (UInt16.ofNat ((code - 0x3B) % 4)))
  else if 0x15 ≤ code ∧ code ≤ 0x19 then do
    straight (.load (slotKindOf (code - 0x15)) (← Reader.uint8).toUInt16)
  else if 0x36 ≤ code ∧ code ≤ 0x3A then do
    straight (.store (slotKindOf (code - 0x36)) (← Reader.uint8).toUInt16)
  else if 0x99 ≤ code ∧ code ≤ 0x9E then
    conditional offset (.zero (comparisonOf (code - 0x99)))
  else if 0x9F ≤ code ∧ code ≤ 0xA4 then
    conditional offset (.ints (comparisonOf (code - 0x9F)))
  else if 0xAC ≤ code ∧ code ≤ 0xB1 then
    return .branch (.ret (returnKindOf (code - 0xAC)))
  else match opcode with
  | 0x10 => do straight (.pushByte (← Reader.int8))
  | 0x11 => do straight (.pushShort (← Reader.int16))
  | 0x12 => do straight (.loadConstant (← Reader.uint8).toUInt16)
  | 0x13 => do straight (.loadConstant (← Reader.uint16))
  | 0x14 => do straight (.loadWideConstant (← Reader.uint16))
  | 0x84 => do
    let slot ← Reader.uint8
    straight (.increment slot.toUInt16 (← Reader.int8).toInt16)
  | 0xA5 => conditional offset (.references .eq)
  | 0xA6 => conditional offset (.references .ne)
  | 0xA7 => do return .branch (.goto (← shortJump offset))
  | 0xAA => readTableSwitch offset
  | 0xAB => readLookupSwitch offset
  | 0xB2 => do straight (.field .getStatic (← Reader.uint16))
  | 0xB3 => do straight (.field .putStatic (← Reader.uint16))
  | 0xB4 => do straight (.field .getField (← Reader.uint16))
  | 0xB5 => do straight (.field .putField (← Reader.uint16))
  | 0xB6 => do straight (.invoke .virtual (← Reader.uint16))
  | 0xB7 => do straight (.invoke .special (← Reader.uint16))
  | 0xB8 => do straight (.invoke .static (← Reader.uint16))
  | 0xB9 => do
    let index ← Reader.uint16
    let slots ← Reader.uint8
    let _ ← Reader.uint8
    straight (.invoke (.interface slots) index)
  | 0xBA => do
    let index ← Reader.uint16
    let _ ← Reader.uint16
    straight (.invokeDynamic index)
  | 0xBB => do straight (.onClass .new (← Reader.uint16))
  | 0xBC => readNewArray offset
  | 0xBD => do straight (.onClass .newArray (← Reader.uint16))
  | 0xBF => return .branch .athrow
  | 0xC0 => do straight (.onClass .checkCast (← Reader.uint16))
  | 0xC1 => do straight (.onClass .instanceOf (← Reader.uint16))
  | 0xC4 => readWide offset
  | 0xC5 => do
    let index ← Reader.uint16
    straight (.newMultiArray index (← Reader.uint8))
  | 0xC6 => conditional offset (.null .eq)
  | 0xC7 => conditional offset (.null .ne)
  | 0xC8 => do return .branch (.goto (← wideJump offset))
  | _ => Reader.fail (.unsupportedOpcode opcode offset)

/-- Reads one instruction, which begins at `offset`. -/
def readInstruction (offset : Nat) : Reader RawInstruction := do
  let opcode ← Reader.uint8
  match Plain.ofOpcode? opcode with
  | some op => straight (.plain op)
  | none => readOperands offset opcode

/-- Splits the bytes ahead after the reversed instructions `seen`. Every instruction takes a byte or
more, so a `fuel` of the number of bytes is enough. -/
def splitFrom (size : Nat) :
    (fuel : Nat) → (seen : List (Nat × RawInstruction)) → Input →
      Except Fault (List (Nat × RawInstruction))
  | 0, seen, _ => .ok seen.reverse
  | fuel + 1, seen, input =>
    if input.ahead.isEmpty then .ok seen.reverse
    else
      let offset := input.position
      match readInstruction offset input with
      | .error stop => .error (stop.toFault (.malformed (.truncatedInstruction offset)))
      | .ok (instruction, rest) =>
        match instruction.targets.find? (size ≤ ·) with
        | some target => .error (.malformed (.targetPastEnd offset target))
        | none => splitFrom size fuel ((offset, instruction) :: seen) rest

/-- The instructions of a method with their offsets. -/
def split (code : Bytes) : Except Fault (List (Nat × RawInstruction)) :=
  splitFrom code.length code.length [] ⟨0, code⟩

end Bytecode

end ClassWeave
