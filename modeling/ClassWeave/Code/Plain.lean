import ClassWeave.Descriptor.Basic

/-!
# Instructions without operands

The instructions that are one opcode and nothing else, grouped by what they do. `Plain.all` lists
them in the order of their opcodes.
-/

namespace ClassWeave

/-- Constants that have an opcode of their own. -/
inductive SmallConstant where
  | null
  | minusOne
  | int0
  | int1
  | int2
  | int3
  | int4
  | int5
  | long0
  | long1
  | float0
  | float1
  | float2
  | double0
  | double1
  deriving DecidableEq, Repr

inductive NumericKind where
  | int
  | long
  | float
  | double
  deriving DecidableEq, Repr

inductive IntegralKind where
  | int
  | long
  deriving DecidableEq, Repr

inductive FloatingKind where
  | float
  | double
  deriving DecidableEq, Repr

/-- What arrays are read and written as. Booleans count as bytes. -/
inductive ElementKind where
  | int
  | long
  | float
  | double
  | reference
  | byte
  | char
  | short
  deriving DecidableEq, Repr

inductive StackOp where
  | pop
  | pop2
  | dup
  | dupX1
  | dupX2
  | dup2
  | dup2X1
  | dup2X2
  | swap
  deriving DecidableEq, Repr

inductive ArithmeticOp where
  | add
  | sub
  | mul
  | div
  | rem
  deriving DecidableEq, Repr

inductive ShiftOp where
  | left
  | arithmeticRight
  | logicalRight
  deriving DecidableEq, Repr

inductive BitwiseOp where
  | and
  | or
  | xor
  deriving DecidableEq, Repr

inductive Conversion where
  | intToLong
  | intToFloat
  | intToDouble
  | longToInt
  | longToFloat
  | longToDouble
  | floatToInt
  | floatToLong
  | floatToDouble
  | doubleToInt
  | doubleToLong
  | doubleToFloat
  | intToByte
  | intToChar
  | intToShort
  deriving DecidableEq, Repr

/-- What a comparison answers when an operand is not a number. -/
inductive NanOrder where
  | less
  | greater
  deriving DecidableEq, Repr

inductive Plain where
  | nop
  | push (constant : SmallConstant)
  | arrayLoad (kind : ElementKind)
  | arrayStore (kind : ElementKind)
  | stack (op : StackOp)
  | arithmetic (op : ArithmeticOp) (kind : NumericKind)
  | negate (kind : NumericKind)
  | shift (op : ShiftOp) (kind : IntegralKind)
  | bitwise (op : BitwiseOp) (kind : IntegralKind)
  | convert (conversion : Conversion)
  | compareLongs
  | compareFloats (kind : FloatingKind) (nan : NanOrder)
  | arrayLength
  | monitorEnter
  | monitorExit
  deriving DecidableEq, Repr

namespace Plain

def smallConstants : List SmallConstant :=
  [.null, .minusOne, .int0, .int1, .int2, .int3, .int4, .int5, .long0, .long1, .float0, .float1,
    .float2, .double0, .double1]

def elementKinds : List ElementKind :=
  [.int, .long, .float, .double, .reference, .byte, .char, .short]

def stackOps : List StackOp :=
  [.pop, .pop2, .dup, .dupX1, .dupX2, .dup2, .dup2X1, .dup2X2, .swap]

def arithmeticOps : List ArithmeticOp := [.add, .sub, .mul, .div, .rem]

def numericKinds : List NumericKind := [.int, .long, .float, .double]

def integralKinds : List IntegralKind := [.int, .long]

def conversions : List Conversion :=
  [.intToLong, .intToFloat, .intToDouble, .longToInt, .longToFloat, .longToDouble, .floatToInt,
    .floatToLong, .floatToDouble, .doubleToInt, .doubleToLong, .doubleToFloat, .intToByte,
    .intToChar, .intToShort]

/-- Every instruction without operands, by ascending opcode. -/
def all : List Plain :=
  nop :: smallConstants.map push
    ++ elementKinds.map arrayLoad ++ elementKinds.map arrayStore
    ++ stackOps.map stack
    ++ arithmeticOps.flatMap (fun op => numericKinds.map (arithmetic op))
    ++ numericKinds.map negate
    ++ [ShiftOp.left, .arithmeticRight, .logicalRight].flatMap
      (fun op => integralKinds.map (shift op))
    ++ [BitwiseOp.and, .or, .xor].flatMap (fun op => integralKinds.map (bitwise op))
    ++ conversions.map convert
    ++ [compareLongs, compareFloats .float .less, compareFloats .float .greater,
      compareFloats .double .less, compareFloats .double .greater,
      arrayLength, monitorEnter, monitorExit]

end Plain

namespace SmallConstant

def index : SmallConstant → UInt8
  | null => 0
  | minusOne => 1
  | int0 => 2
  | int1 => 3
  | int2 => 4
  | int3 => 5
  | int4 => 6
  | int5 => 7
  | long0 => 8
  | long1 => 9
  | float0 => 10
  | float1 => 11
  | float2 => 12
  | double0 => 13
  | double1 => 14

end SmallConstant

def NumericKind.index : NumericKind → UInt8
  | int => 0
  | long => 1
  | float => 2
  | double => 3

def IntegralKind.index : IntegralKind → UInt8
  | int => 0
  | long => 1

def ElementKind.index : ElementKind → UInt8
  | int => 0
  | long => 1
  | float => 2
  | double => 3
  | reference => 4
  | byte => 5
  | char => 6
  | short => 7

def StackOp.index : StackOp → UInt8
  | pop => 0
  | pop2 => 1
  | dup => 2
  | dupX1 => 3
  | dupX2 => 4
  | dup2 => 5
  | dup2X1 => 6
  | dup2X2 => 7
  | swap => 8

def ArithmeticOp.index : ArithmeticOp → UInt8
  | add => 0
  | sub => 1
  | mul => 2
  | div => 3
  | rem => 4

def ShiftOp.index : ShiftOp → UInt8
  | left => 0
  | arithmeticRight => 1
  | logicalRight => 2

def BitwiseOp.index : BitwiseOp → UInt8
  | and => 0
  | or => 1
  | xor => 2

def Conversion.index : Conversion → UInt8
  | intToLong => 0
  | intToFloat => 1
  | intToDouble => 2
  | longToInt => 3
  | longToFloat => 4
  | longToDouble => 5
  | floatToInt => 6
  | floatToLong => 7
  | floatToDouble => 8
  | doubleToInt => 9
  | doubleToLong => 10
  | doubleToFloat => 11
  | intToByte => 12
  | intToChar => 13
  | intToShort => 14

namespace Plain

def opcode : Plain → UInt8
  | nop => 0x00
  | push constant => 0x01 + constant.index
  | arrayLoad kind => 0x2E + kind.index
  | arrayStore kind => 0x4F + kind.index
  | stack op => 0x57 + op.index
  | arithmetic op kind => 0x60 + 4 * op.index + kind.index
  | negate kind => 0x74 + kind.index
  | shift op kind => 0x78 + 2 * op.index + kind.index
  | bitwise op kind => 0x7E + 2 * op.index + kind.index
  | convert conversion => 0x85 + conversion.index
  | compareLongs => 0x94
  | compareFloats .float .less => 0x95
  | compareFloats .float .greater => 0x96
  | compareFloats .double .less => 0x97
  | compareFloats .double .greater => 0x98
  | arrayLength => 0xBE
  | monitorEnter => 0xC2
  | monitorExit => 0xC3

/-- The instruction of each opcode that needs no operand. -/
def byOpcode : Array (Option Plain) :=
  all.foldl (fun table op => table.setIfInBounds op.opcode.toNat (some op))
    (Array.replicate 256 none)

def ofOpcode? (opcode : UInt8) : Option Plain := (byOpcode[opcode.toNat]?).join

end Plain

end ClassWeave
