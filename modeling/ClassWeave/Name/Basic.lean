/-!
# Names

Unqualified names (of methods and fields) and binary names (of classes and interfaces, segments
joined by slashes). Both types carry the proof that the text passed its check, so a name in hand is
a valid one.
-/

namespace ClassWeave

/-- Why a text is not a name. -/
inductive NameError where
  | illegalCharacter (segment : String)
  | emptySegment
  | emptyBinaryName
  deriving DecidableEq, Repr

def NameError.message : NameError → String
  | illegalCharacter segment => "Unqualified name '" ++ segment ++ "' contains an illegal character"
  | emptySegment => "Unqualified name is empty"
  | emptyBinaryName => "Binary name is empty"

/-- The characters that separate names and open array types, so no name holds one. -/
def isReserved (c : Char) : Bool := c == '.' || c == ';' || c == '[' || c == '/'

/-- What is wrong with a segment, if anything. A reserved character is reported first. -/
def segmentError? (segment : List Char) : Option NameError :=
  if segment.any isReserved then some (.illegalCharacter (String.ofList segment))
  else if segment.isEmpty then some .emptySegment
  else none

/-- Splits at slashes; `current` is the reversed piece being read. -/
def segmentsFrom (current : List Char) : List Char → List (List Char)
  | [] => [current.reverse]
  | c :: rest =>
    if c == '/' then current.reverse :: segmentsFrom [] rest else segmentsFrom (c :: current) rest

/-- The pieces of a text between slashes, at least one. -/
def segments (text : List Char) : List (List Char) := segmentsFrom [] text

/-- What is wrong with a binary name, if anything. The first bad segment is reported. -/
def binaryError? (text : List Char) : Option NameError :=
  if text.isEmpty then some .emptyBinaryName
  else (segments text).findSome? segmentError?

/-- The name of a method or a field. -/
structure UnqualifiedName where
  text : String
  valid : segmentError? text.toList = none

/-- The name of a class or an interface, with slashes between its segments. -/
structure BinaryName where
  text : String
  valid : binaryError? text.toList = none

namespace UnqualifiedName

theorem ext_text {a b : UnqualifiedName} (same : a.text = b.text) : a = b := by
  cases a; cases b; cases same; rfl

instance : DecidableEq UnqualifiedName := fun a b =>
  if same : a.text = b.text then isTrue (ext_text same)
  else isFalse fun equal => same (equal ▸ rfl)

instance : Hashable UnqualifiedName := ⟨fun name => hash name.text⟩

instance : Repr UnqualifiedName := ⟨fun name _ => name.text⟩

def ofString (text : String) : Except NameError UnqualifiedName :=
  match checked : segmentError? text.toList with
  | some fault => .error fault
  | none => .ok ⟨text, checked⟩

end UnqualifiedName

namespace BinaryName

theorem ext_text {a b : BinaryName} (same : a.text = b.text) : a = b := by
  cases a; cases b; cases same; rfl

instance : DecidableEq BinaryName := fun a b =>
  if same : a.text = b.text then isTrue (ext_text same)
  else isFalse fun equal => same (equal ▸ rfl)

instance : Hashable BinaryName := ⟨fun name => hash name.text⟩

instance : Repr BinaryName := ⟨fun name _ => name.text⟩

def ofString (text : String) : Except NameError BinaryName :=
  match checked : binaryError? text.toList with
  | some fault => .error fault
  | none => .ok ⟨text, checked⟩

/-- Reads a name written with dots, as in `java.lang.Object`. -/
def ofDotted (text : String) : Except NameError BinaryName :=
  ofString (text.map fun c => if c == '.' then '/' else c)

/-- The name written with dots. -/
def toDotted (name : BinaryName) : String :=
  name.text.map fun c => if c == '/' then '.' else c

end BinaryName

end ClassWeave
