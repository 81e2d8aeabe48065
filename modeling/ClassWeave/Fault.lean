import ClassWeave.Code.Label
import ClassWeave.Descriptor.Parser
import ClassWeave.Text.Hex
import ClassWeave.Text.Quoted

/-!
# Faults

Everything that can go wrong while a class is read, typed, written or looked up. A fault is a cause
with its data; its wording is in `message`.
-/

namespace ClassWeave

/-- Why a file or an archive could not be read or written. -/
inductive IoKind where
  | notFound
  | unexpectedEof
  | isADirectory
  | notADirectory
  | alreadyExists
  | invalidInput
  | invalidData
  | nameTooLong
  | other
  deriving DecidableEq, Repr

def IoKind.name : IoKind → String
  | notFound => "NotFound"
  | unexpectedEof => "UnexpectedEof"
  | isADirectory => "IsADirectory"
  | notADirectory => "NotADirectory"
  | alreadyExists => "AlreadyExists"
  | invalidInput => "InvalidInput"
  | invalidData => "InvalidData"
  | nameTooLong => "InvalidFilename"
  | other => "Other"

/-- Why an instruction does not fit the frame before it. -/
inductive TypeFault where
  | emptyStack
  | invalidWidth (width : Nat)
  | notArray
  | invalidIndex
  | invalidType
  | fallsOffEnd
  deriving DecidableEq, Repr

def TypeFault.name : TypeFault → String
  | emptyStack => "EmptyStack"
  | invalidWidth width => "InvalidWidth(" ++ toString width ++ ")"
  | notArray => "NotArrayType"
  | invalidIndex => "InvalidIndex"
  | invalidType => "InvalidType"
  | fallsOffEnd => "FallsOffEnd"

/-- Attributes that are looked into. -/
inductive AttributeKind where
  | code
  | lineNumberTable
  | localVariableTable
  | localVariableTypeTable
  | stackMapTable
  deriving DecidableEq, Repr

def AttributeKind.name : AttributeKind → String
  | code => "Code"
  | lineNumberTable => "LineNumberTable"
  | localVariableTable => "LocalVariableTable"
  | localVariableTypeTable => "LocalVariableTypeTable"
  | stackMapTable => "StackMapTable"

/-- How the structure of a class file or a method body is broken. -/
inductive Malformation where
  | endOfInput
  | trailingClassBytes (count : Nat)
  | trailingAttributeBytes (kind : AttributeKind)
  | unknownConstantTag (tag : UInt8)
  | unknownHandleKind (kind : UInt8)
  | wideConstantOverrun
  | invalidText
  | truncatedInstruction (offset : Nat)
  | negativeTarget (offset : Nat) (target : Int)
  | targetPastEnd (offset target : Nat)
  | targetInsideInstruction (offset target : Nat)
  | emptySwitchRange (offset : Nat) (low high : Int32)
  | negativePairCount (offset : Nat)
  | badArrayType (offset : Nat) (code : UInt8)
  | misalignedRange (start stop : Nat)
  | misalignedHandler (offset : Nat)
  | noBoundary (offset : Nat)
  | undefinedLabel (label : Label)
  | undefinedJumpLabel (label : Label)
  | labelPlacedTwice (label : Label)
  | backwardsVariableRange (start stop : Nat)
  | wrongClassLoaded (wanted found : BinaryName)
  deriving DecidableEq, Repr

def Malformation.message : Malformation → String
  | endOfInput => "unexpected end of input"
  | trailingClassBytes count => toString count ++ " trailing bytes after class file"
  | trailingAttributeBytes kind => kind.name ++ " attribute has trailing bytes"
  | unknownConstantTag tag => "unknown constant tag " ++ toString tag.toNat
  | unknownHandleKind kind => "unknown method handle kind " ++ toString kind.toNat
  | wideConstantOverrun => "wide constant overruns the constant pool"
  | invalidText => "invalid modified UTF-8 string"
  | truncatedInstruction offset => "truncated instruction at offset " ++ toString offset
  | negativeTarget offset target =>
    "jump at " ++ toString offset ++ " to negative offset " ++ toString target
  | targetPastEnd offset target =>
    "jump at " ++ toString offset ++ " to " ++ toString target ++ " is past the end of the code"
  | targetInsideInstruction offset target =>
    "jump at " ++ toString offset ++ " to " ++ toString target
      ++ " is not to the start of an instruction"
  | emptySwitchRange offset low high =>
    "tableswitch at " ++ toString offset ++ " has high " ++ toString high.toInt ++ " below low "
      ++ toString low.toInt
  | negativePairCount offset => "lookupswitch at " ++ toString offset ++ " has negative pair count"
  | badArrayType offset code =>
    "newarray at " ++ toString offset ++ " has bad type " ++ toString code.toNat
  | misalignedRange start stop =>
    "exception range " ++ toString start ++ ".." ++ toString stop
      ++ " does not line up with instructions"
  | misalignedHandler offset =>
    "exception handler at " ++ toString offset ++ " is not the start of an instruction"
  | noBoundary offset => "no instruction boundary at " ++ toString offset
  | undefinedLabel label => "undefined label " ++ label.display
  | undefinedJumpLabel label => "jump to undefined label " ++ label.display
  | labelPlacedTwice label => "label " ++ label.display ++ " placed twice"
  | backwardsVariableRange start stop =>
    "local variable range " ++ toString start ++ ".." ++ toString stop ++ " is backwards"
  | wrongClassLoaded wanted found =>
    "loading " ++ wanted.text ++ " produced class " ++ found.text

/-- The kind of constant that an index should have led to. -/
inductive ConstantRole where
  | utf8
  | classRef
  | plainClass
  | nameAndType
  | loadable
  | fieldRef
  | methodRef
  | callSite
  deriving DecidableEq, Repr

def ConstantRole.name : ConstantRole → String
  | utf8 => "Utf8"
  | classRef => "Class"
  | plainClass => "Class (not an array)"
  | nameAndType => "NameAndType"
  | loadable => "loadable constant"
  | fieldRef => "Fieldref"
  | methodRef => "Methodref or InterfaceMethodref"
  | callSite => "InvokeDynamic"

/-- How two frames that meet disagree. -/
inductive FrameMismatch where
  | heights
  | types
  /-- They never stop changing. -/
  | unsettled
  deriving DecidableEq, Repr

inductive Fault where
  | io (kind : IoKind)
  | badMagic (found : UInt32)
  | malformed (how : Malformation)
  | missingConstant (index : UInt16)
  | badConstant (index : UInt16) (expected : ConstantRole)
  | badDescriptor (text : String) (cause : DescriptorError)
  | invalidName (cause : NameError)
  | invalidClassName (text : String) (cause : DescriptorError)
  | poolOverflow (slot : Nat)
  | codeTooLong (length : Nat)
  | unsupportedOpcode (opcode : UInt8) (offset : Nat)
  | untypable (item : Nat) (cause : TypeFault)
  | incompatibleFrames (item : Nat) (mismatch : FrameMismatch)
  | missingClass (name : BinaryName)
  | hierarchyCycle (name : BinaryName)
  /-- An archive's entry is locked, though it does not say that it is encrypted. -/
  | lockedEntry
  /-- An archive's entry is said to have more bytes than there can be. -/
  | oversizedEntry
  deriving DecidableEq, Repr

/-- The kind of fault, in one word. -/
def Fault.category : Fault → String
  | io _ => "IoError"
  | badMagic _ => "BadMagic"
  | malformed _ => "Malformed"
  | missingConstant _ => "MissingConstant"
  | badConstant _ _ => "BadConstant"
  | badDescriptor _ _ => "BadDescriptor"
  | invalidName _ | invalidClassName _ _ => "InvalidName"
  | poolOverflow _ => "ConstantPoolOverflow"
  | codeTooLong _ => "MethodCodeOverflow"
  | unsupportedOpcode _ _ => "UnsupportedInstruction"
  | untypable _ _ => "VerifierError"
  | incompatibleFrames _ _ => "IncompatibleFrames"
  | missingClass _ => "MissingClass"
  | hierarchyCycle _ => "ClassHierarchyCycle"
  | lockedEntry => "LockedEntry"
  | oversizedEntry => "OversizedEntry"

/-- The wording of a fault. Faults that carry an outside text have only a heading here. -/
def Fault.message : Fault → String
  | io _ => "I/O error"
  | badMagic found => "bad class file magic 0x" ++ hexDigits 8 found.toNat
  | malformed how => "malformed class file: " ++ how.message
  | missingConstant index => "missing constant #" ++ toString index.toNat
  | badConstant index expected =>
    "constant #" ++ toString index.toNat ++ " should be a " ++ expected.name
  | badDescriptor text cause => "bad descriptor " ++ Text.quoted text ++ ": " ++ cause.message
  | invalidName cause => "invalid name: " ++ cause.message
  | invalidClassName text cause => "invalid name: " ++ Text.quoted text ++ ": " ++ cause.message
  | poolOverflow slot => "constant pool is full at #" ++ toString slot
  | codeTooLong length => "method body is " ++ toString length ++ " bytes long (max 65535)"
  | unsupportedOpcode opcode offset =>
    "unsupported opcode 0x" ++ hexDigits 2 opcode.toNat ++ " at " ++ toString offset
  | untypable item _ => "cannot type instruction " ++ toString item
  | incompatibleFrames item _ => "incompatible frames at instruction " ++ toString item
  | missingClass name => "class " ++ name.toDotted ++ " could not be found"
  | hierarchyCycle name => "class " ++ name.toDotted ++ " is its own superclass"
  | lockedEntry => "archive entry is locked"
  | oversizedEntry => "archive entry is too large"

/-- Faults that nothing goes on after. -/
def Fault.isFatal : Fault → Bool
  | lockedEntry | oversizedEntry => true
  | _ => false

end ClassWeave
