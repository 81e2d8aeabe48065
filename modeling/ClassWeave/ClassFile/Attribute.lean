import ClassWeave.Constant.Pool

/-!
# Attributes

Attributes are kept as bytes, so that those nothing is known about pass through unchanged. The code
of a method and its debugging tables can be looked into.
-/

namespace ClassWeave

structure Attribute where
  nameIndex : ConstantIndex
  info : Bytes
  deriving DecidableEq, Repr

/-- A range of code and what handles the exceptions that leave it. Class 0 stands for all classes.
-/
structure ExceptionEntry where
  start : UInt16
  stop : UInt16
  handler : UInt16
  catchType : ConstantIndex
  deriving DecidableEq, Repr

structure CodeAttribute where
  maxStack : UInt16
  maxLocals : UInt16
  code : Bytes
  exceptions : List ExceptionEntry
  attributes : List Attribute
  deriving DecidableEq, Repr

structure LineEntry where
  start : UInt16
  line : UInt16
  deriving DecidableEq, Repr

/-- Where a local variable has a name and a type (or, in the type table, a generic signature). -/
structure VariableEntry where
  start : UInt16
  length : UInt16
  nameIndex : ConstantIndex
  descriptorIndex : ConstantIndex
  slot : UInt16
  deriving DecidableEq, Repr

namespace Attribute

def encode (attr : Attribute) : Bytes :=
  Bytes.ofUInt16 attr.nameIndex
    ++ Bytes.ofUInt32 (UInt32.ofNat attr.info.length) ++ attr.info

def read : Reader Attribute := do
  let nameIndex ← Reader.uint16
  let length ← Reader.uint32
  return ⟨nameIndex, ← Reader.take length.toNat⟩

def name (attr : Attribute) (table : ConstantTable) : Except Fault String :=
  table.utf8 attr.nameIndex

/-- Reads the content, all of which must be used. -/
def decode {α : Type} (attr : Attribute) (kind : AttributeKind) (reader : Reader α) :
    Except Fault α := do
  match ← reader.runFrom (.malformed .endOfInput) attr.info with
  | (value, []) => return value
  | (_, _ :: _) => throw (.malformed (.trailingAttributeBytes kind))

end Attribute

namespace ExceptionEntry

def encode (entry : ExceptionEntry) : Bytes :=
  Bytes.ofUInt16 entry.start ++ Bytes.ofUInt16 entry.stop ++ Bytes.ofUInt16 entry.handler
    ++ Bytes.ofUInt16 entry.catchType

def read : Reader ExceptionEntry := do
  return ⟨← Reader.uint16, ← Reader.uint16, ← Reader.uint16, ← Reader.uint16⟩

end ExceptionEntry

namespace CodeAttribute

def encode (code : CodeAttribute) : Bytes :=
  Bytes.ofUInt16 code.maxStack ++ Bytes.ofUInt16 code.maxLocals
    ++ Bytes.ofUInt32 (UInt32.ofNat code.code.length) ++ code.code
    ++ Bytes.ofList ExceptionEntry.encode code.exceptions
    ++ Bytes.ofList Attribute.encode code.attributes

def read : Reader CodeAttribute := do
  let maxStack ← Reader.uint16
  let maxLocals ← Reader.uint16
  let length ← Reader.uint32
  let code ← Reader.take length.toNat
  let exceptions ← Reader.list ExceptionEntry.read
  let attributes ← Reader.list Attribute.read
  return ⟨maxStack, maxLocals, code, exceptions, attributes⟩

end CodeAttribute

namespace LineEntry

def encode (entry : LineEntry) : Bytes := Bytes.ofUInt16 entry.start ++ Bytes.ofUInt16 entry.line

def read : Reader LineEntry := do return ⟨← Reader.uint16, ← Reader.uint16⟩

end LineEntry

namespace VariableEntry

def encode (entry : VariableEntry) : Bytes :=
  Bytes.ofUInt16 entry.start ++ Bytes.ofUInt16 entry.length ++ Bytes.ofUInt16 entry.nameIndex
    ++ Bytes.ofUInt16 entry.descriptorIndex ++ Bytes.ofUInt16 entry.slot

def read : Reader VariableEntry := do
  return ⟨← Reader.uint16, ← Reader.uint16, ← Reader.uint16, ← Reader.uint16, ← Reader.uint16⟩

end VariableEntry

namespace Attribute

def decodeCode (attr : Attribute) : Except Fault CodeAttribute :=
  attr.decode .code CodeAttribute.read

def decodeLines (attr : Attribute) : Except Fault (List LineEntry) :=
  attr.decode .lineNumberTable (Reader.list LineEntry.read)

/-- The entries of either of the two variable tables. -/
def decodeVariables (attr : Attribute) (kind : AttributeKind) :
    Except Fault (List VariableEntry) :=
  attr.decode kind (Reader.list VariableEntry.read)

end Attribute

namespace PoolM

/-- An attribute of a kind, whose name is added to the pool. -/
def attributeOf (kind : AttributeKind) (info : Bytes) : PoolM Attribute := do
  let nameIndex ← utf8 kind.name
  return ⟨nameIndex, info⟩

def lineNumberTable (entries : List LineEntry) : PoolM Attribute :=
  attributeOf .lineNumberTable (Bytes.ofList LineEntry.encode entries)

/-- Either of the two variable tables. -/
def variableTable (kind : AttributeKind) (entries : List VariableEntry) : PoolM Attribute :=
  attributeOf kind (Bytes.ofList VariableEntry.encode entries)

end PoolM

end ClassWeave
