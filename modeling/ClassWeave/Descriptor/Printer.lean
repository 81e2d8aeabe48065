import ClassWeave.Descriptor.Basic

/-!
# Printing descriptors

The text of a type or a signature, and the name under which a class file stores a reference type.
-/

namespace ClassWeave

def BaseType.letter : BaseType → Char
  | byte => 'B'
  | char => 'C'
  | double => 'D'
  | float => 'F'
  | int => 'I'
  | long => 'J'
  | short => 'S'
  | boolean => 'Z'

/-- A class name as descriptors spell it. -/
def BinaryName.descriptorChars (name : BinaryName) : List Char :=
  'L' :: name.text.toList ++ [';']

def Component.chars : Component → List Char
  | base type => [type.letter]
  | object name => name.descriptorChars

def RefType.chars : RefType → List Char
  | object name => name.descriptorChars
  | array extra element => List.replicate (extra + 1) '[' ++ element.chars

def FieldType.chars : FieldType → List Char
  | base type => [type.letter]
  | ref type => type.chars

/-- The text after the closing parenthesis of a signature. -/
def resultChars : Option FieldType → List Char
  | none => ['V']
  | some type => type.chars

def MethodDescriptor.chars (descriptor : MethodDescriptor) : List Char :=
  '(' :: descriptor.parameters.flatMap FieldType.chars ++ ')' :: resultChars descriptor.result

def BaseType.render (type : BaseType) : String := String.singleton type.letter
def BinaryName.render (name : BinaryName) : String := String.ofList name.descriptorChars
def RefType.render (type : RefType) : String := String.ofList type.chars
def FieldType.render (type : FieldType) : String := String.ofList type.chars
def renderResult (result : Option FieldType) : String := String.ofList (resultChars result)

def MethodDescriptor.render (descriptor : MethodDescriptor) : String :=
  String.ofList descriptor.chars

/-- The name under which a class file stores the type: of a class its binary name, of an array its
descriptor. -/
def RefType.className : RefType → String
  | object name => name.text
  | type => type.render

end ClassWeave
