import Std.Data.HashMap
import ClassWeave.Code.Branch
import ClassWeave.Code.Instruction

/-!
# Mnemonics

The names that assemblers give to instructions. Names of instructions that differ in one detail
differ in the letters that stand for it.
-/

namespace ClassWeave

namespace SmallConstant

def mnemonic : SmallConstant → String
  | null => "aconst_null"
  | minusOne => "iconst_m1"
  | int0 => "iconst_0"
  | int1 => "iconst_1"
  | int2 => "iconst_2"
  | int3 => "iconst_3"
  | int4 => "iconst_4"
  | int5 => "iconst_5"
  | long0 => "lconst_0"
  | long1 => "lconst_1"
  | float0 => "fconst_0"
  | float1 => "fconst_1"
  | float2 => "fconst_2"
  | double0 => "dconst_0"
  | double1 => "dconst_1"

end SmallConstant

def NumericKind.letter : NumericKind → String
  | int => "i"
  | long => "l"
  | float => "f"
  | double => "d"

def IntegralKind.letter : IntegralKind → String
  | int => "i"
  | long => "l"

def FloatingKind.letter : FloatingKind → String
  | float => "f"
  | double => "d"

def ElementKind.letter : ElementKind → String
  | int => "i"
  | long => "l"
  | float => "f"
  | double => "d"
  | reference => "a"
  | byte => "b"
  | char => "c"
  | short => "s"

def SlotKind.letter : SlotKind → String
  | int => "i"
  | long => "l"
  | float => "f"
  | double => "d"
  | reference => "a"

def StackOp.mnemonic : StackOp → String
  | pop => "pop"
  | pop2 => "pop2"
  | dup => "dup"
  | dupX1 => "dup_x1"
  | dupX2 => "dup_x2"
  | dup2 => "dup2"
  | dup2X1 => "dup2_x1"
  | dup2X2 => "dup2_x2"
  | swap => "swap"

def ArithmeticOp.mnemonic : ArithmeticOp → String
  | add => "add"
  | sub => "sub"
  | mul => "mul"
  | div => "div"
  | rem => "rem"

def ShiftOp.mnemonic : ShiftOp → String
  | left => "shl"
  | arithmeticRight => "shr"
  | logicalRight => "ushr"

def BitwiseOp.mnemonic : BitwiseOp → String
  | and => "and"
  | or => "or"
  | xor => "xor"

def Conversion.mnemonic : Conversion → String
  | intToLong => "i2l"
  | intToFloat => "i2f"
  | intToDouble => "i2d"
  | longToInt => "l2i"
  | longToFloat => "l2f"
  | longToDouble => "l2d"
  | floatToInt => "f2i"
  | floatToLong => "f2l"
  | floatToDouble => "f2d"
  | doubleToInt => "d2i"
  | doubleToLong => "d2l"
  | doubleToFloat => "d2f"
  | intToByte => "i2b"
  | intToChar => "i2c"
  | intToShort => "i2s"

def NanOrder.letter : NanOrder → String
  | less => "l"
  | greater => "g"

namespace Plain

def mnemonic : Plain → String
  | nop => "nop"
  | push constant => constant.mnemonic
  | arrayLoad kind => kind.letter ++ "aload"
  | arrayStore kind => kind.letter ++ "astore"
  | stack op => op.mnemonic
  | arithmetic op kind => kind.letter ++ op.mnemonic
  | negate kind => kind.letter ++ "neg"
  | shift op kind => kind.letter ++ op.mnemonic
  | bitwise op kind => kind.letter ++ op.mnemonic
  | convert conversion => conversion.mnemonic
  | compareLongs => "lcmp"
  | compareFloats kind nan => kind.letter ++ "cmp" ++ nan.letter
  | arrayLength => "arraylength"
  | monitorEnter => "monitorenter"
  | monitorExit => "monitorexit"

/-- The instructions without operands by name. -/
def byMnemonic : Std.HashMap String Plain :=
  Std.HashMap.ofList (all.map fun op => (op.mnemonic, op))

end Plain

def FieldOp.mnemonic : FieldOp → String
  | getStatic => "getstatic"
  | putStatic => "putstatic"
  | getField => "getfield"
  | putField => "putfield"

def InvokeKind.mnemonic : InvokeKind → String
  | virtual => "invokevirtual"
  | special => "invokespecial"
  | static => "invokestatic"
  | interface _ => "invokeinterface"

def ClassOp.mnemonic : ClassOp → String
  | new => "new"
  | newArray => "anewarray"
  | checkCast => "checkcast"
  | instanceOf => "instanceof"

namespace Instruction

def mnemonic {ω : OperandKind → Type} : Instruction ω → String
  | plain op => op.mnemonic
  | pushByte _ => "bipush"
  | pushShort _ => "sipush"
  | loadConstant _ => "ldc"
  | loadWideConstant _ => "ldc2_w"
  | load kind _ => kind.letter ++ "load"
  | store kind _ => kind.letter ++ "store"
  | increment _ _ => "iinc"
  | field op _ => op.mnemonic
  | invoke kind _ => kind.mnemonic
  | invokeDynamic _ => "invokedynamic"
  | newPrimitiveArray _ => "newarray"
  | onClass op _ => op.mnemonic
  | newMultiArray _ _ => "multianewarray"

end Instruction

def Comparison.mnemonic : Comparison → String
  | eq => "eq"
  | ne => "ne"
  | lt => "lt"
  | ge => "ge"
  | gt => "gt"
  | le => "le"

def Equality.mnemonic : Equality → String
  | eq => "eq"
  | ne => "ne"

def Test.mnemonic : Test → String
  | zero comparison => "if" ++ comparison.mnemonic
  | ints comparison => "if_icmp" ++ comparison.mnemonic
  | references equality => "if_acmp" ++ equality.mnemonic
  | null .eq => "ifnull"
  | null .ne => "ifnonnull"

/-- Every test of a conditional jump. -/
def Test.all : List Test :=
  let comparisons : List Comparison := [.eq, .ne, .lt, .ge, .gt, .le]
  comparisons.map zero ++ comparisons.map ints
    ++ [references .eq, references .ne, null .eq, null .ne]

def ReturnKind.mnemonic : ReturnKind → String
  | void => "return"
  | int => "ireturn"
  | long => "lreturn"
  | float => "freturn"
  | double => "dreturn"
  | reference => "areturn"

def ReturnKind.all : List ReturnKind := [.void, .int, .long, .float, .double, .reference]

namespace Branch

def mnemonic {τ : Type} : Branch τ → String
  | jumpIf test _ => test.mnemonic
  | goto _ => "goto"
  | tableSwitch _ _ _ => "tableswitch"
  | lookupSwitch _ _ => "lookupswitch"
  | ret kind => kind.mnemonic
  | athrow => "athrow"

end Branch

end ClassWeave
