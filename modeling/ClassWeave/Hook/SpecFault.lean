import ClassWeave.Descriptor.Printer
import ClassWeave.Fault

/-!
# Faults of hook specs

What can be wrong with a hook spec, by itself or for the class it is meant for, and with the text of
a spec file.
-/

namespace ClassWeave

/-- What a reference that a hook produces is used as. -/
inductive ReferenceUse where
  | targetResult
  | result
  | callResult
  | chunk
  | cacheField
  deriving DecidableEq, Repr

def ReferenceUse.display : ReferenceUse → String
  | targetResult => "the target's return type"
  | result => "the return type"
  | callResult => "the triggering call's return type"
  | chunk => "the chunk class"
  | cacheField => "the cache field"

/-- Why a target does not go with the interface method. -/
inductive TargetFault where
  | argumentCount (given parameters : Nat)
  | resultNotReturnable (result : Option FieldType)
  | answerNotBoolean
  | selectionNotReference
  | replacementNotReference
  | chunksNotArray
  | cachedNotReference
  | misfit (produced : RefType) (use : ReferenceUse) (expected : RefType)
  deriving DecidableEq, Repr

def TargetFault.message : TargetFault → String
  | argumentCount given parameters =>
    toString given ++ " argument slots given for " ++ toString parameters
      ++ " interface parameters"
  | resultNotReturnable result =>
    "interface returns " ++ renderResult result
      ++ " which cannot be returned from the target"
  | answerNotBoolean => "interface must return a boolean"
  | selectionNotReference => "selected fields and the target must have a reference type"
  | replacementNotReference => "interface and the triggering call must return references"
  | chunksNotArray => "interface must return an object array and the target a reference"
  | cachedNotReference => "interface and the target must return references"
  | misfit produced use expected =>
    produced.render ++ " does not fit " ++ use.display ++ " " ++ expected.render

/-- What is wrong with a line of a spec file, or with a block of lines. -/
inductive LineFault where
  | argumentCount (what : String) (expected given : Nat)
  | outsideBlock (directive : String)
  | secondInterface
  | shortTarget
  | argumentsWithoutTarget
  | unknownDirective (directive : String)
  | unknownShape (shape : String)
  | badSlot (text : String)
  | noInterface (className : BinaryName)
  deriving DecidableEq, Repr

def LineFault.message : LineFault → String
  | argumentCount what expected given =>
    "'" ++ what ++ "' takes " ++ toString expected ++ " arguments, got " ++ toString given
  | outsideBlock directive => "'" ++ directive ++ "' before any 'class'"
  | secondInterface => "more than one interface for the same class"
  | shortTarget => "'target' needs a name, a descriptor, and a shape"
  | argumentsWithoutTarget => "'args' must follow a 'target'"
  | unknownDirective directive => "unknown directive '" ++ directive ++ "'"
  | unknownShape shape => "unknown trigger shape '" ++ shape ++ "'"
  | badSlot text => "'" ++ text ++ "' is not a local variable slot"
  | noInterface className => "class " ++ className.text ++ " has no interface line"

inductive SpecFault where
  | badName (cause : NameError)
  | badDescriptor (cause : Fault)
  | primitiveArrayParameter (descriptor : MethodDescriptor)
  | noTargets
  | repeatedTarget (name : UnqualifiedName) (descriptor : MethodDescriptor)
  | badTarget (name : UnqualifiedName) (descriptor : MethodDescriptor) (cause : TargetFault)
  | badLine (cause : LineFault)
  | atLine (number : Nat) (cause : SpecFault)
  deriving DecidableEq, Repr

def SpecFault.message : SpecFault → String
  | badName cause => cause.message
  | badDescriptor cause => cause.message
  | primitiveArrayParameter descriptor =>
    descriptor.render ++ " takes a primitive array, which cannot be marshaled"
  | noTargets => "no target methods"
  | repeatedTarget name descriptor =>
    name.text ++ descriptor.render ++ " is targeted more than once"
  | badTarget name descriptor cause => name.text ++ descriptor.render ++ ": " ++ cause.message
  | badLine cause => cause.message
  | atLine number cause => "line " ++ toString number ++ ": " ++ cause.message

/-- Why a class cannot take a hook, whatever the hook. -/
inductive ClassLimit where
  | isInterface (name : BinaryName)
  | noClassConstants (name : BinaryName) (major minor : UInt16)
  deriving DecidableEq, Repr

def ClassLimit.message : ClassLimit → String
  | isInterface name => name.toDotted ++ " is an interface"
  | noClassConstants name major minor =>
    name.toDotted ++ " has class file version " ++ toString major.toNat ++ "."
      ++ toString minor.toNat ++ ", which can't load class constants"

/-- What can go wrong while a class is hooked. -/
inductive HookFault where
  | classFile (cause : Fault)
  | invalidSpec (cause : SpecFault)
  | unsupportedTarget (cause : ClassLimit)
  deriving DecidableEq, Repr

def HookFault.category : HookFault → String
  | classFile cause => cause.category
  | invalidSpec _ => "InvalidHookSpec"
  | unsupportedTarget _ => "UnsupportedTarget"

def HookFault.message : HookFault → String
  | classFile cause => cause.message
  | invalidSpec cause => "invalid hook spec: " ++ cause.message
  | unsupportedTarget cause => "unsupported target: " ++ cause.message

def HookFault.isFatal : HookFault → Bool
  | classFile cause => cause.isFatal
  | invalidSpec _ | unsupportedTarget _ => false

end ClassWeave
