import ClassWeave.Code.Operand
import ClassWeave.Listing.Term
import ClassWeave.Text.Hex

/-!
# Listing constants and operands

Long numbers are listed as decimal text, floating point numbers as the hexadecimal digits of their
bits, classes by the name that class files store.
-/

namespace ClassWeave

open Term (call ofUInt16)

def HandleKind.name : HandleKind → String
  | getField => "getField"
  | getStatic => "getStatic"
  | putField => "putField"
  | putStatic => "putStatic"
  | invokeVirtual => "invokeVirtual"
  | invokeStatic => "invokeStatic"
  | invokeSpecial => "invokeSpecial"
  | newInvokeSpecial => "newInvokeSpecial"
  | invokeInterface => "invokeInterface"

def HandleKind.all : List HandleKind :=
  [getField, getStatic, putField, putStatic, invokeVirtual, invokeStatic, invokeSpecial,
    newInvokeSpecial, invokeInterface]

namespace Constant

def toTerm : Constant → Term
  | utf8 value => call "Utf8" [.text value]
  | integer value => call "Integer" [.number value.toInt]
  | float bits => call "Float" [.text (hexDigits 8 bits.toNat)]
  | long value => call "Long" [.text (toString value.toInt)]
  | double bits => call "Double" [.text (hexDigits 16 bits.toNat)]
  | classRef name => call "Class" [ofUInt16 name]
  | string value => call "String" [ofUInt16 value]
  | fieldRef owner signature => call "Fieldref" [ofUInt16 owner, ofUInt16 signature]
  | methodRef owner signature isInterface =>
    call (if isInterface then "InterfaceMethodref" else "Methodref")
      [ofUInt16 owner, ofUInt16 signature]
  | nameAndType name descriptor => call "NameAndType" [ofUInt16 name, ofUInt16 descriptor]
  | methodHandle kind member => call "MethodHandle" [.text kind.name, ofUInt16 member]
  | methodType descriptor => call "MethodType" [ofUInt16 descriptor]
  | dynamic bootstrap signature => call "Dynamic" [ofUInt16 bootstrap, ofUInt16 signature]
  | invokeDynamic bootstrap signature =>
    call "InvokeDynamic" [ofUInt16 bootstrap, ofUInt16 signature]
  | module name => call "Module" [ofUInt16 name]
  | package name => call "Package" [ofUInt16 name]

def ofPair? (make : ConstantIndex → ConstantIndex → Constant) (a b : Term) :
    Option Constant := return make (← a.toUInt16?) (← b.toUInt16?)

/-- Reads a listed constant. A text may be followed by how often it is repeated. -/
def ofTerm? (term : Term) : Option Constant := do
  match ← term.toCall? with
  | ("Utf8", [.text value]) => return utf8 value
  | ("Utf8", [.text value, count]) =>
    return utf8 (String.ofList (List.replicate (← count.toNat?) value.toList).flatten)
  | ("Integer", [value]) => return integer (Int32.ofInt (← value.toInt?))
  | ("Float", [.text digits]) => return float (UInt32.ofNat (← readHex? digits))
  | ("Long", [.text digits]) => return long (Int64.ofInt (← digits.toInt?))
  | ("Double", [.text digits]) => return double (UInt64.ofNat (← readHex? digits))
  | ("Class", [a]) => return classRef (← a.toUInt16?)
  | ("String", [a]) => return string (← a.toUInt16?)
  | ("Fieldref", [a, b]) => ofPair? fieldRef a b
  | ("Methodref", [a, b]) => ofPair? (methodRef · · false) a b
  | ("InterfaceMethodref", [a, b]) => ofPair? (methodRef · · true) a b
  | ("NameAndType", [a, b]) => ofPair? nameAndType a b
  | ("MethodHandle", [.text kind, a]) =>
    return methodHandle (← HandleKind.all.find? (·.name == kind)) (← a.toUInt16?)
  | ("MethodType", [a]) => return methodType (← a.toUInt16?)
  | ("Dynamic", [a, b]) => ofPair? dynamic a b
  | ("InvokeDynamic", [a, b]) => ofPair? invokeDynamic a b
  | ("Module", [a]) => return module (← a.toUInt16?)
  | ("Package", [a]) => return package (← a.toUInt16?)
  | _ => none

end Constant

def RefType.ofTerm? (term : Term) : Option RefType := do
  (RefType.ofClassName (← term.toText?)).toOption

def BinaryName.ofTerm? (term : Term) : Option BinaryName := do
  (BinaryName.ofString (← term.toText?)).toOption

def UnqualifiedName.ofTerm? (term : Term) : Option UnqualifiedName := do
  (UnqualifiedName.ofString (← term.toText?)).toOption

def FieldType.ofTerm? (term : Term) : Option FieldType := do
  (FieldType.parse (← term.toText?)).toOption

def MethodDescriptor.ofTerm? (term : Term) : Option MethodDescriptor := do
  (MethodDescriptor.parse (← term.toText?)).toOption

def FieldRef.toTerm (field : FieldRef) : Term :=
  .list [.text field.owner.text, .text field.name.text, .text field.type.render]

def FieldRef.ofTerm? : Term → Option FieldRef
  | .list [owner, name, type] =>
    return ⟨← BinaryName.ofTerm? owner, ← UnqualifiedName.ofTerm? name, ← FieldType.ofTerm? type⟩
  | _ => none

def MethodRef.toTerm (method : MethodRef) : Term :=
  .list [.text method.owner.className, .text method.name.text, .text method.descriptor.render,
    .flag method.isInterface]

/-- Reads a listed method. The mark of an interface may be left out. -/
def MethodRef.ofTerm? : Term → Option MethodRef
  | .list (owner :: name :: descriptor :: rest) => do
    let isInterface ← match rest with
      | [] => some false
      | mark :: _ => mark.toFlag?
    return ⟨← RefType.ofTerm? owner, ← UnqualifiedName.ofTerm? name,
      ← MethodDescriptor.ofTerm? descriptor, isInterface⟩
  | _ => none

namespace Loadable

def toTerm : Loadable → Term
  | string value => call "string" [.text value]
  | int value => call "int" [.number value.toInt]
  | float bits => call "float" [.text (hexDigits 8 bits.toNat)]
  | long value => call "long" [.text (toString value.toInt)]
  | double bits => call "double" [.text (hexDigits 16 bits.toNat)]
  | classRef type => call "class" [.text type.className]
  | methodType index => call "methodtype" [ofUInt16 index]
  | methodHandle index => call "methodhandle" [ofUInt16 index]
  | dynamic index type => call "dynamic" [ofUInt16 index, .text type.render]

def ofTerm? (term : Term) : Option Loadable := do
  match ← term.toCall? with
  | ("string", [.text value]) => return string value
  | ("int", [value]) => return int (Int32.ofInt (← value.toInt?))
  | ("float", [.text digits]) => return float (UInt32.ofNat (← readHex? digits))
  | ("long", [.text digits]) => return long (Int64.ofInt (← digits.toInt?))
  | ("double", [.text digits]) => return double (UInt64.ofNat (← readHex? digits))
  | ("class", [type]) => return classRef (← RefType.ofTerm? type)
  | ("methodtype", [index]) => return methodType (← index.toUInt16?)
  | ("methodhandle", [index]) => return methodHandle (← index.toUInt16?)
  | ("dynamic", [index, type]) => return dynamic (← index.toUInt16?) (← FieldType.ofTerm? type)
  | _ => none

end Loadable

def CallSiteRef.toTerm (site : CallSiteRef) : Term :=
  .list [ofUInt16 site.index, .text site.descriptor.render]

def CallSiteRef.ofTerm? : Term → Option CallSiteRef
  | .list [index, descriptor] =>
    return ⟨← index.toUInt16?, ← MethodDescriptor.ofTerm? descriptor⟩
  | _ => none

namespace Symbolic

def toTerm : {kind : OperandKind} → Symbolic kind → Term
  | .classRef, type => .text type.className
  | .loadable, constant => Loadable.toTerm constant
  | .field, field => FieldRef.toTerm field
  | .method, method => MethodRef.toTerm method
  | .callSite, site => CallSiteRef.toTerm site

def ofTerm? : (kind : OperandKind) → Term → Option (Symbolic kind)
  | .classRef, term => RefType.ofTerm? term
  | .loadable, term => Loadable.ofTerm? term
  | .field, term => FieldRef.ofTerm? term
  | .method, term => MethodRef.ofTerm? term
  | .callSite, term => CallSiteRef.ofTerm? term

end Symbolic

/-- Reads a listed slot of the constant pool, whatever its kind. -/
def Pooled.ofTerm? (kind : OperandKind) (term : Term) : Option (Pooled kind) := term.toUInt16?

end ClassWeave
