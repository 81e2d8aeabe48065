import ClassWeave.ClassFile.Attribute

/-!
# Class files

The structure of a class file. Flags are kept as they are, named or not, so that writing a class
file back changes none of them.
-/

namespace ClassWeave

/-! Bits of the access flags. -/
namespace Access

def isPublic : UInt16 := 0x0001
def isPrivate : UInt16 := 0x0002
def isStatic : UInt16 := 0x0008
def isFinal : UInt16 := 0x0010
def isInterface : UInt16 := 0x0200

/-- Does `flags` have every bit of `bits`? -/
def has (flags bits : UInt16) : Bool := flags &&& bits == bits

end Access

/-- A version of the class file format. -/
structure Version where
  major : UInt16
  minor : UInt16
  deriving DecidableEq, Repr

namespace Version

/-- Class files of the sixth release and later carry stack maps. -/
def supportsStackMaps (version : Version) : Bool := 50 ≤ version.major

/-- Class files of the fifth release and later can load class constants. -/
def supportsClassConstants (version : Version) : Bool := 49 ≤ version.major

end Version

/-- A field or a method. -/
structure Member where
  flags : UInt16
  nameIndex : ConstantIndex
  descriptorIndex : ConstantIndex
  attributes : List Attribute
  deriving DecidableEq, Repr

structure ClassFile where
  version : Version
  constants : ConstantTable
  flags : UInt16
  thisClass : ConstantIndex
  /-- The root of the class hierarchy alone has no superclass. -/
  superClass : Option ConstantIndex
  interfaces : List ConstantIndex
  fields : List Member
  methods : List Member
  attributes : List Attribute
  deriving Repr

namespace Member

def encode (member : Member) : Bytes :=
  Bytes.ofUInt16 member.flags ++ Bytes.ofUInt16 member.nameIndex
    ++ Bytes.ofUInt16 member.descriptorIndex ++ Bytes.ofList Attribute.encode member.attributes

def read : Reader Member := do
  return ⟨← Reader.uint16, ← Reader.uint16, ← Reader.uint16, ← Reader.list Attribute.read⟩

def name (member : Member) (table : ConstantTable) : Except Fault String :=
  table.utf8 member.nameIndex

/-- The signature, if the member is a method. -/
def descriptor (member : Member) (table : ConstantTable) : Except Fault MethodDescriptor := do
  parseDescriptor MethodDescriptor.parse (← table.utf8 member.descriptorIndex)

def isStatic (member : Member) : Bool := Access.has member.flags Access.isStatic

/-- The position of the first attribute of a kind, counted from `position`. -/
def positionFrom (table : ConstantTable) (kind : AttributeKind) (position : Nat) :
    List Attribute → Except Fault (Option Nat)
  | [] => return none
  | attr :: rest => do
    if (← attr.name table) == kind.name then return some position
    else positionFrom table kind (position + 1) rest

/-- The position of the method's code among its attributes. -/
def codePosition? (member : Member) (table : ConstantTable) : Except Fault (Option Nat) :=
  positionFrom table .code 0 member.attributes

/-- The method's code, if it has any. -/
def code? (member : Member) (table : ConstantTable) : Except Fault (Option CodeAttribute) := do
  match ← member.codePosition? table with
  | none => return none
  | some position =>
    match member.attributes[position]? with
    | none => return none
    | some attr => return some (← attr.decodeCode)

end Member

namespace ClassFile

def magic : UInt32 := 0xCAFEBABE

def encode (file : ClassFile) : Bytes :=
  Bytes.ofUInt32 magic
    ++ Bytes.ofUInt16 file.version.minor ++ Bytes.ofUInt16 file.version.major
    ++ file.constants.encode
    ++ Bytes.ofUInt16 file.flags ++ Bytes.ofUInt16 file.thisClass
    ++ Bytes.ofUInt16 (file.superClass.getD 0)
    ++ Bytes.ofList Bytes.ofUInt16 file.interfaces
    ++ Bytes.ofList Member.encode file.fields
    ++ Bytes.ofList Member.encode file.methods
    ++ Bytes.ofList Attribute.encode file.attributes

/-- Reads up to the constants. -/
def readStart : Reader (Version × ConstantTable) := do
  let found ← Reader.uint32
  if found != magic then Reader.fail (.badMagic found)
  else
    let minor ← Reader.uint16
    let major ← Reader.uint16
    return (⟨major, minor⟩, ← ConstantTable.read)

def read : Reader ClassFile := do
  let (version, constants) ← readStart
  let flags ← Reader.uint16
  let thisClass ← Reader.uint16
  let superClass ← Reader.uint16
  let interfaces ← Reader.list Reader.uint16
  let fields ← Reader.list Member.read
  let methods ← Reader.list Member.read
  let attributes ← Reader.list Attribute.read
  return {
    version, constants, flags, thisClass, interfaces, fields, methods, attributes
    superClass := if superClass == 0 then none else some superClass }

/-- Reads a class file that takes up all the bytes. -/
def parse (bytes : Bytes) : Except Fault ClassFile := do
  match ← read.runFrom (.malformed .endOfInput) bytes with
  | (file, []) => return file
  | (_, rest) => throw (.malformed (.trailingClassBytes rest.length))

/-- Reads up to the name of the class. -/
def readName : Reader BinaryName := do
  let (_, constants) ← readStart
  let _ ← Reader.uint16
  let thisClass ← Reader.uint16
  match constants.binaryName thisClass with
  | .ok name => return name
  | .error fault => Reader.fail fault

/-- The name of the class, reading no further than needed. -/
def peekName (bytes : Bytes) : Except Fault BinaryName := do
  return (← readName.runFrom (.malformed .endOfInput) bytes).1

def name (file : ClassFile) : Except Fault BinaryName := file.constants.binaryName file.thisClass

def superName (file : ClassFile) : Except Fault (Option BinaryName) :=
  file.superClass.mapM file.constants.binaryName

def interfaceNames (file : ClassFile) : Except Fault (List BinaryName) :=
  file.interfaces.mapM file.constants.binaryName

def isInterface (file : ClassFile) : Bool := Access.has file.flags Access.isInterface

end ClassFile

/-- What the class hierarchy needs to know of a class. -/
structure ClassHeader where
  name : BinaryName
  superclass : Option BinaryName
  interfaces : List BinaryName
  isInterface : Bool
  deriving DecidableEq, Repr

namespace ClassHeader

def ofClassFile (file : ClassFile) : Except Fault ClassHeader := do
  return ⟨← file.name, ← file.superName, ← file.interfaceNames, file.isInterface⟩

def ofBytes (bytes : Bytes) : Except Fault ClassHeader := do ofClassFile (← ClassFile.parse bytes)

end ClassHeader

end ClassWeave
