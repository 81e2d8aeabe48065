import ClassWeave.Bytes.Writer
import ClassWeave.Code.Operand
import ClassWeave.Code.Plain

/-!
# Straight-line instructions

The instructions that go on to the next one. Loads and stores have one form each, whatever the slot:
how many bytes a slot needs is settled when the instruction is written.
-/

namespace ClassWeave

/-- What a local variable is read or written as. -/
inductive SlotKind where
  | int
  | long
  | float
  | double
  | reference
  deriving DecidableEq, Repr

inductive FieldOp where
  | getStatic
  | putStatic
  | getField
  | putField
  deriving DecidableEq, Repr

/-- How a method is chosen. `slots` counts those of the receiver and the arguments. -/
inductive InvokeKind where
  | virtual
  | special
  | static
  | interface (slots : UInt8)
  deriving DecidableEq, Repr

inductive ClassOp where
  | new
  | newArray
  | checkCast
  | instanceOf
  deriving DecidableEq, Repr

/-- An instruction whose operands have the form `ω`. -/
inductive Instruction (ω : OperandKind → Type) where
  | plain (op : Plain)
  | pushByte (value : Int8)
  | pushShort (value : Int16)
  | loadConstant (constant : ω .loadable)
  | loadWideConstant (constant : ω .loadable)
  | load (kind : SlotKind) (slot : UInt16)
  | store (kind : SlotKind) (slot : UInt16)
  | increment (slot : UInt16) (amount : Int16)
  | field (op : FieldOp) (field : ω .field)
  | invoke (kind : InvokeKind) (method : ω .method)
  | invokeDynamic (site : ω .callSite)
  | newPrimitiveArray (type : BaseType)
  | onClass (op : ClassOp) (type : ω .classRef)
  | newMultiArray (type : ω .classRef) (dimensions : UInt8)

/-- Instructions of a method body that is being edited. -/
abbrev SymInstruction := Instruction Symbolic

/-- Instructions as bytecode holds them. -/
abbrev PoolInstruction := Instruction Pooled

namespace Instruction

variable {ω ω' : OperandKind → Type}

/-- Changes the form of the operands. -/
def mapM {m : Type → Type} [Monad m] (change : (kind : OperandKind) → ω kind → m (ω' kind)) :
    Instruction ω → m (Instruction ω')
  | plain op => pure (plain op)
  | pushByte value => pure (pushByte value)
  | pushShort value => pure (pushShort value)
  | loadConstant constant => loadConstant <$> change .loadable constant
  | loadWideConstant constant => loadWideConstant <$> change .loadable constant
  | load kind slot => pure (load kind slot)
  | store kind slot => pure (store kind slot)
  | increment slot amount => pure (increment slot amount)
  | field op ref => field op <$> change .field ref
  | invoke kind method => invoke kind <$> change .method method
  | invokeDynamic site => invokeDynamic <$> change .callSite site
  | newPrimitiveArray type => pure (newPrimitiveArray type)
  | onClass op type => onClass op <$> change .classRef type
  | newMultiArray type dimensions => (newMultiArray · dimensions) <$> change .classRef type

/-- The operand, if the instruction has one. -/
def operand? : Instruction ω → Option ((kind : OperandKind) × ω kind)
  | loadConstant constant | loadWideConstant constant => some ⟨.loadable, constant⟩
  | field _ ref => some ⟨.field, ref⟩
  | invoke _ method => some ⟨.method, method⟩
  | invokeDynamic site => some ⟨.callSite, site⟩
  | onClass _ type | newMultiArray type _ => some ⟨.classRef, type⟩
  | _ => none

/-- The local variable that is read or written, if any. -/
def slot? : Instruction ω → Option UInt16
  | load _ slot | store _ slot | increment slot _ => some slot
  | _ => none

/-- The local variable that is loaded or stored, if any; counting one up is neither. -/
def accessedSlot? : Instruction ω → Option UInt16
  | load _ slot | store _ slot => some slot
  | _ => none

end Instruction

def SlotKind.index : SlotKind → UInt8
  | int => 0
  | long => 1
  | float => 2
  | double => 3
  | reference => 4

def FieldOp.opcode : FieldOp → UInt8
  | getStatic => 0xB2
  | putStatic => 0xB3
  | getField => 0xB4
  | putField => 0xB5

def ClassOp.opcode : ClassOp → UInt8
  | new => 0xBB
  | newArray => 0xBD
  | checkCast => 0xC0
  | instanceOf => 0xC1

/-- The code of a primitive type where arrays of it are created. -/
def BaseType.arrayCode : BaseType → UInt8
  | boolean => 4
  | char => 5
  | float => 6
  | double => 7
  | byte => 8
  | short => 9
  | int => 10
  | long => 11

namespace PoolInstruction

/-- The bytes of a load or a store: slots 0 to 3 have opcodes of their own, slots from 256 on the
wide form. -/
def encodeSlot (shortOpcode opcode : UInt8) (slot : UInt16) : Bytes :=
  if slot ≤ 3 then [shortOpcode + slot.toUInt8]
  else if slot ≤ 255 then [opcode, slot.toUInt8]
  else 0xC4 :: opcode :: Bytes.ofUInt16 slot

/-- Do slot and amount each fit into a byte? -/
def incrementFits (slot : UInt16) (amount : Int16) : Bool :=
  slot ≤ 255 && -128 ≤ amount && amount ≤ 127

def encode : PoolInstruction → Bytes
  | .plain op => [op.opcode]
  | .pushByte value => [0x10, value.toUInt8]
  | .pushShort value => 0x11 :: Bytes.ofUInt16 value.toUInt16
  | .loadConstant index =>
    if index ≤ 255 then [0x12, index.toUInt8] else 0x13 :: Bytes.ofUInt16 index
  | .loadWideConstant index => 0x14 :: Bytes.ofUInt16 index
  | .load kind slot => encodeSlot (0x1A + 4 * kind.index) (0x15 + kind.index) slot
  | .store kind slot => encodeSlot (0x3B + 4 * kind.index) (0x36 + kind.index) slot
  | .increment slot amount =>
    if incrementFits slot amount then [0x84, slot.toUInt8, amount.toInt8.toUInt8]
    else 0xC4 :: 0x84 :: Bytes.ofUInt16 slot ++ Bytes.ofUInt16 amount.toUInt16
  | .field op index => op.opcode :: Bytes.ofUInt16 index
  | .invoke .virtual index => 0xB6 :: Bytes.ofUInt16 index
  | .invoke .special index => 0xB7 :: Bytes.ofUInt16 index
  | .invoke .static index => 0xB8 :: Bytes.ofUInt16 index
  | .invoke (.interface slots) index => 0xB9 :: Bytes.ofUInt16 index ++ [slots, 0]
  | .invokeDynamic index => 0xBA :: Bytes.ofUInt16 index ++ [0, 0]
  | .newPrimitiveArray type => [0xBC, type.arrayCode]
  | .onClass op index => op.opcode :: Bytes.ofUInt16 index
  | .newMultiArray index dimensions => 0xC5 :: Bytes.ofUInt16 index ++ [dimensions]

private def slotWidth (slot : UInt16) : Nat :=
  if slot ≤ 3 then 1 else if slot ≤ 255 then 2 else 4

/-- The number of bytes, wherever the instruction stands. -/
def width : PoolInstruction → Nat
  | .plain _ => 1
  | .pushByte _ | .newPrimitiveArray _ => 2
  | .pushShort _ | .loadWideConstant _ | .field _ _ | .onClass _ _ => 3
  | .loadConstant index => if index ≤ 255 then 2 else 3
  | .load _ slot | .store _ slot => slotWidth slot
  | .increment slot amount => if incrementFits slot amount then 3 else 6
  | .invoke (.interface _) _ | .invokeDynamic _ => 5
  | .invoke _ _ => 3
  | .newMultiArray _ _ => 4

end PoolInstruction

end ClassWeave
