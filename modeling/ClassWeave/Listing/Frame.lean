import ClassWeave.ClassFile.StackMap
import ClassWeave.Listing.Constant

/-!
# Listing types and stack maps

A type without data is one word. An entry of a stack map is listed by its kind, its distance and
what it changes.
-/

namespace ClassWeave

open Term (call ofUInt16)

namespace VerificationType

variable {κ υ : Type}

def toTerm (classTerm : κ → Term) (sourceTerm : υ → Term) : VerificationType κ υ → Term
  | top => .text "top"
  | integer => .text "int"
  | float => .text "float"
  | double => .text "double"
  | long => .text "long"
  | null => .text "null"
  | uninitializedThis => .text "uninit_this"
  | object type => call "object" [classTerm type]
  | uninitialized source => call "uninit" [sourceTerm source]

def ofTerm? (classOf : Term → Option κ) (sourceOf : Term → Option υ) :
    Term → Option (VerificationType κ υ)
  | .text "top" => some top
  | .text "int" => some integer
  | .text "float" => some float
  | .text "double" => some double
  | .text "long" => some long
  | .text "null" => some null
  | .text "uninit_this" => some uninitializedThis
  | .list [.text "object", type] => object <$> classOf type
  | .list [.text "uninit", source] => uninitialized <$> sourceOf source
  | _ => none

/-- Types of stack maps, which hold slots and offsets. -/
def storedToTerm (type : StoredType) : Term := type.toTerm ofUInt16 ofUInt16

def storedOfTerm? (term : Term) : Option StoredType := ofTerm? Term.toUInt16? Term.toUInt16? term

/-- Types of inferred frames, which hold classes and positions of items. -/
def inferredToTerm (type : VType) : Term :=
  type.toTerm (fun name => .text name.className) Term.ofNat

def inferredOfTerm? (term : Term) : Option VType := ofTerm? RefType.ofTerm? Term.toNat? term

end VerificationType

namespace StackMapEntry

open VerificationType (storedToTerm storedOfTerm?)

def typesToTerm (types : List StoredType) : Term := .list (types.map storedToTerm)

def toTerm : StackMapEntry → Term
  | same delta => call "same" [ofUInt16 delta]
  | sameOneStack delta value => call "same1" [ofUInt16 delta, typesToTerm [value]]
  | chop delta count => call "chop" [ofUInt16 delta, .number count.toNat]
  | append delta added => call "append" [ofUInt16 delta, typesToTerm added]
  | full delta locals stack => call "full" [ofUInt16 delta, typesToTerm locals, typesToTerm stack]

def ofTerm? (term : Term) : Option StackMapEntry := do
  match ← term.toCall? with
  | ("same", [delta]) => return same (← delta.toUInt16?)
  | ("same1", [delta, .list [value]]) =>
    return sameOneStack (← delta.toUInt16?) (← storedOfTerm? value)
  | ("chop", [delta, count]) => return chop (← delta.toUInt16?) (UInt8.ofNat (← count.toNat?))
  | ("append", [delta, .list added]) =>
    return append (← delta.toUInt16?) (← added.mapM storedOfTerm?)
  | ("full", [delta, .list locals, .list stack]) =>
    return full (← delta.toUInt16?) (← locals.mapM storedOfTerm?) (← stack.mapM storedOfTerm?)
  | _ => none

end StackMapEntry

end ClassWeave
