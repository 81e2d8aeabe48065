import ClassWeave.Bytes.Reader
import ClassWeave.Text.ModifiedUtf8

/-!
# Constants

The entries of a constant pool. They refer to each other by slot. Floating point numbers are kept as
their bits, so that no two of them are confused.
-/

namespace ClassWeave

/-- A slot of the constant pool; the first is number 1. -/
abbrev ConstantIndex := UInt16

/-- What a method handle does. -/
inductive HandleKind where
  | getField
  | getStatic
  | putField
  | putStatic
  | invokeVirtual
  | invokeStatic
  | invokeSpecial
  | newInvokeSpecial
  | invokeInterface
  deriving DecidableEq, Repr, Hashable

inductive Constant where
  | utf8 (text : String)
  | integer (value : Int32)
  | float (bits : UInt32)
  | long (value : Int64)
  | double (bits : UInt64)
  | classRef (name : ConstantIndex)
  | string (text : ConstantIndex)
  | fieldRef (owner signature : ConstantIndex)
  | methodRef (owner signature : ConstantIndex) (isInterface : Bool)
  | nameAndType (name descriptor : ConstantIndex)
  | methodHandle (kind : HandleKind) (member : ConstantIndex)
  | methodType (descriptor : ConstantIndex)
  | dynamic (bootstrap : UInt16) (signature : ConstantIndex)
  | invokeDynamic (bootstrap : UInt16) (signature : ConstantIndex)
  | module (name : ConstantIndex)
  | package (name : ConstantIndex)
  deriving DecidableEq, Repr, Hashable

/-- Numbers of eight bytes take two slots, of which only the first can be referred to. -/
def Constant.width : Constant → Nat
  | long _ | double _ => 2
  | _ => 1

namespace HandleKind

def code : HandleKind → UInt8
  | getField => 1
  | getStatic => 2
  | putField => 3
  | putStatic => 4
  | invokeVirtual => 5
  | invokeStatic => 6
  | invokeSpecial => 7
  | newInvokeSpecial => 8
  | invokeInterface => 9

def ofCode? : UInt8 → Option HandleKind
  | 1 => some getField
  | 2 => some getStatic
  | 3 => some putField
  | 4 => some putStatic
  | 5 => some invokeVirtual
  | 6 => some invokeStatic
  | 7 => some invokeSpecial
  | 8 => some newInvokeSpecial
  | 9 => some invokeInterface
  | _ => none

end HandleKind

namespace Constant

/-- The bytes of a constant. The length of a text keeps its low 16 bits only. -/
def encode : Constant → Bytes
  | utf8 text =>
    let bytes := ModifiedUtf8.encode text
    1 :: Bytes.ofUInt16 (UInt16.ofNat bytes.length) ++ bytes
  | integer value => 3 :: Bytes.ofUInt32 value.toUInt32
  | float bits => 4 :: Bytes.ofUInt32 bits
  | long value => 5 :: Bytes.ofUInt64 value.toUInt64
  | double bits => 6 :: Bytes.ofUInt64 bits
  | classRef name => 7 :: Bytes.ofUInt16 name
  | string text => 8 :: Bytes.ofUInt16 text
  | fieldRef owner signature => 9 :: Bytes.ofUInt16 owner ++ Bytes.ofUInt16 signature
  | methodRef owner signature isInterface =>
    (if isInterface then 11 else 10) :: Bytes.ofUInt16 owner ++ Bytes.ofUInt16 signature
  | nameAndType name descriptor => 12 :: Bytes.ofUInt16 name ++ Bytes.ofUInt16 descriptor
  | methodHandle kind member => 15 :: kind.code :: Bytes.ofUInt16 member
  | methodType descriptor => 16 :: Bytes.ofUInt16 descriptor
  | dynamic bootstrap signature => 17 :: Bytes.ofUInt16 bootstrap ++ Bytes.ofUInt16 signature
  | invokeDynamic bootstrap signature =>
    18 :: Bytes.ofUInt16 bootstrap ++ Bytes.ofUInt16 signature
  | module name => 19 :: Bytes.ofUInt16 name
  | package name => 20 :: Bytes.ofUInt16 name

private def readText : Reader String := do
  let length ← Reader.uint16
  let bytes ← Reader.take length.toNat
  match ModifiedUtf8.decode bytes with
  | some text => return text
  | none => Reader.fail (.malformed .invalidText)

private def readHandleKind : Reader HandleKind := do
  let code ← Reader.uint8
  match HandleKind.ofCode? code with
  | some kind => return kind
  | none => Reader.fail (.malformed (.unknownHandleKind code))

/-- Reads the constant that the tag announces. -/
def readTagged (tag : UInt8) : Reader Constant :=
  match tag with
  | 1 => return utf8 (← readText)
  | 3 => return integer (← Reader.int32)
  | 4 => return float (← Reader.uint32)
  | 5 => return long (← Reader.int64)
  | 6 => return double (← Reader.uint64)
  | 7 => return classRef (← Reader.uint16)
  | 8 => return string (← Reader.uint16)
  | 9 => return fieldRef (← Reader.uint16) (← Reader.uint16)
  | 10 => return methodRef (← Reader.uint16) (← Reader.uint16) false
  | 11 => return methodRef (← Reader.uint16) (← Reader.uint16) true
  | 12 => return nameAndType (← Reader.uint16) (← Reader.uint16)
  | 15 => return methodHandle (← readHandleKind) (← Reader.uint16)
  | 16 => return methodType (← Reader.uint16)
  | 17 => return dynamic (← Reader.uint16) (← Reader.uint16)
  | 18 => return invokeDynamic (← Reader.uint16) (← Reader.uint16)
  | 19 => return module (← Reader.uint16)
  | 20 => return package (← Reader.uint16)
  | unknown => Reader.fail (.malformed (.unknownConstantTag unknown))

def read : Reader Constant := do readTagged (← Reader.uint8)

end Constant

end ClassWeave
