import ClassWeave.Descriptor.Basic

/-!
# Reading descriptors

Each reader takes the characters ahead and returns what it read with the characters that follow.
`readAll` wants none to follow.
-/

namespace ClassWeave

/-- Why a text is not a descriptor. -/
inductive DescriptorError where
  | trailing (c : Char)
  | notPrimitive (c : Char)
  | notClassStart
  | badName (error : NameError)
  | notReferenceStart (c : Char)
  | notMethodStart
  | missingPrimitive
  | unterminatedClass (read : String)
  | missingReference
  | missingFieldType
  | unterminatedParameters
  deriving DecidableEq, Repr

namespace DescriptorError

/-- Did the text end too early, rather than hold something wrong? -/
def isTruncation : DescriptorError → Bool
  | missingPrimitive | unterminatedClass _ | missingReference | missingFieldType
  | unterminatedParameters => true
  | _ => false

private def inQuotes (c : Char) : String := "'" ++ String.singleton c ++ "'"

def message : DescriptorError → String
  | trailing c => "Trailing " ++ inQuotes c ++ " after descriptor"
  | notPrimitive c => inQuotes c ++ " is not a primitive type"
  | notClassStart => "Class types start with 'L'"
  | badName error => error.message
  | notReferenceStart c => inQuotes c ++ " does not start a reference type"
  | notMethodStart => "Method descriptors start with '('"
  | missingPrimitive => "Expected a primitive type"
  | unterminatedClass read => "Unterminated class type 'L" ++ read ++ "'"
  | missingReference => "Expected a reference type"
  | missingFieldType => "Expected a field type"
  | unterminatedParameters => "Unterminated parameter list"

end DescriptorError

namespace Descriptor

/-- Takes what it needs off the front of the text. -/
abbrev Reader (α : Type) := List Char → Except DescriptorError (α × List Char)

/-- Reads a whole text. -/
def readAll {α : Type} (reader : Reader α) (text : String) : Except DescriptorError α :=
  match reader text.toList with
  | .error fault => .error fault
  | .ok (value, []) => .ok value
  | .ok (_, c :: _) => .error (.trailing c)

def baseTypeOf? : Char → Option BaseType
  | 'B' => some .byte
  | 'C' => some .char
  | 'D' => some .double
  | 'F' => some .float
  | 'I' => some .int
  | 'J' => some .long
  | 'S' => some .short
  | 'Z' => some .boolean
  | _ => none

def baseType : Reader BaseType
  | [] => .error .missingPrimitive
  | c :: rest =>
    match baseTypeOf? c with
    | some type => .ok (type, rest)
    | none => .error (.notPrimitive c)

/-- Reads up to a semicolon; `read` is reversed. -/
def classBody (read : List Char) : Reader BinaryName
  | [] => .error (.unterminatedClass (String.ofList read.reverse))
  | c :: rest =>
    if c == ';' then
      match BinaryName.ofString (String.ofList read.reverse) with
      | .ok name => .ok (name, rest)
      | .error fault => .error (.badName fault)
    else classBody (c :: read) rest

def classType : Reader BinaryName
  | 'L' :: rest => classBody [] rest
  | _ => .error .notClassStart

/-- Skips brackets, counting from `count`. -/
def dimensions (count : Nat) : List Char → Nat × List Char
  | '[' :: rest => dimensions (count + 1) rest
  | text => (count, text)

/-- What follows the brackets of an array type. -/
def component : Reader Component
  | 'L' :: rest => do
    let (name, rest) ← classBody [] rest
    return (.object name, rest)
  | text => do
    let (type, rest) ← baseType text
    return (.base type, rest)

def refType : Reader RefType
  | [] => .error .missingReference
  | 'L' :: rest => do
    let (name, rest) ← classBody [] rest
    return (.object name, rest)
  | '[' :: rest => do
    let (extra, rest) := dimensions 0 rest
    let (element, rest) ← component rest
    return (.array extra element, rest)
  | c :: _ => .error (.notReferenceStart c)

def fieldType : Reader FieldType
  | [] => .error .missingFieldType
  | c :: rest =>
    if c == 'L' || c == '[' then do
      let (type, rest) ← refType (c :: rest)
      return (.ref type, rest)
    else do
      let (type, rest) ← baseType (c :: rest)
      return (.base type, rest)

theorem baseType_shorter {text rest : List Char} {type : BaseType}
    (read : baseType text = .ok (type, rest)) : rest.length < text.length := by
  cases text with
  | nil => simp [baseType] at read
  | cons c tail =>
    simp only [baseType] at read
    split at read
    · cases read; simp
    · cases read

theorem classBody_shorter {seen text rest : List Char} {name : BinaryName}
    (read : classBody seen text = .ok (name, rest)) : rest.length < text.length := by
  induction text generalizing seen with
  | nil => simp [classBody] at read
  | cons c tail ih =>
    simp only [classBody] at read
    split at read
    · split at read
      · cases read; simp
      · cases read
    · exact Nat.lt_succ_of_lt (ih read)

theorem dimensions_le (count : Nat) (text : List Char) :
    (dimensions count text).2.length ≤ text.length := by
  fun_induction dimensions count text with
  | case1 count rest ih => exact Nat.le_succ_of_le ih
  | case2 => exact Nat.le_refl _

theorem component_shorter {text rest : List Char} {element : Component}
    (read : component text = .ok (element, rest)) : rest.length < text.length := by
  unfold component at read
  split at read
  · rename_i tail
    cases body : classBody [] tail with
    | error fault => simp [body, bind, Except.bind] at read
    | ok pair =>
      simp only [body, bind, Except.bind, pure, Except.pure, Except.ok.injEq, Prod.mk.injEq] at read
      obtain ⟨-, rfl⟩ := read
      exact Nat.lt_succ_of_lt (classBody_shorter body)
  · cases base : baseType text with
    | error fault => simp [base, bind, Except.bind] at read
    | ok pair =>
      simp only [base, bind, Except.bind, pure, Except.pure, Except.ok.injEq, Prod.mk.injEq] at read
      obtain ⟨-, rfl⟩ := read
      exact baseType_shorter base

theorem refType_shorter {text rest : List Char} {type : RefType}
    (read : refType text = .ok (type, rest)) : rest.length < text.length := by
  unfold refType at read
  split at read
  · cases read
  · rename_i tail
    cases body : classBody [] tail with
    | error fault => simp [body, bind, Except.bind] at read
    | ok pair =>
      simp only [body, bind, Except.bind, pure, Except.pure, Except.ok.injEq, Prod.mk.injEq] at read
      obtain ⟨-, rfl⟩ := read
      exact Nat.lt_succ_of_lt (classBody_shorter body)
  · rename_i tail
    cases element : component (dimensions 0 tail).2 with
    | error fault => simp [element, bind, Except.bind] at read
    | ok pair =>
      simp only [element, bind, Except.bind, pure, Except.pure, Except.ok.injEq, Prod.mk.injEq]
        at read
      obtain ⟨-, rfl⟩ := read
      exact Nat.lt_succ_of_lt
        (Nat.lt_of_lt_of_le (component_shorter element) (dimensions_le 0 tail))
  · cases read

/-- A type takes at least one character. -/
theorem fieldType_shorter {text rest : List Char} {type : FieldType}
    (read : fieldType text = .ok (type, rest)) : rest.length < text.length := by
  cases text with
  | nil => simp [fieldType] at read
  | cons c tail =>
    simp only [fieldType] at read
    split at read
    · cases ref : refType (c :: tail) with
      | error fault => simp [ref, bind, Except.bind] at read
      | ok pair =>
        simp only [ref, bind, Except.bind, pure, Except.pure, Except.ok.injEq,
          Prod.mk.injEq] at read
        obtain ⟨-, rfl⟩ := read
        exact refType_shorter ref
    · cases base : baseType (c :: tail) with
      | error fault => simp [base, bind, Except.bind] at read
      | ok pair =>
        simp only [base, bind, Except.bind, pure, Except.pure, Except.ok.injEq, Prod.mk.injEq]
          at read
        obtain ⟨-, rfl⟩ := read
        exact baseType_shorter base

/-- Reads types up to the closing parenthesis; `seen` is reversed. -/
def parameters (seen : List FieldType) (text : List Char) :
    Except DescriptorError (List FieldType × List Char) :=
  match text with
  | [] => .error .unterminatedParameters
  | c :: tail =>
    if c == ')' then .ok (seen.reverse, tail)
    else match _read : fieldType (c :: tail) with
      | .error fault => .error fault
      | .ok (type, rest) => parameters (type :: seen) rest
termination_by text.length
decreasing_by exact fieldType_shorter _read

def result : Reader (Option FieldType)
  | 'V' :: rest => .ok (none, rest)
  | text => do
    let (type, rest) ← fieldType text
    return (some type, rest)

def methodDescriptor : Reader MethodDescriptor
  | '(' :: rest => do
    let (types, rest) ← parameters [] rest
    let (type, rest) ← result rest
    return (⟨types, type⟩, rest)
  | _ => .error .notMethodStart

end Descriptor

def BaseType.parse : String → Except DescriptorError BaseType :=
  Descriptor.readAll Descriptor.baseType

/-- Reads a class name as descriptors spell it. -/
def BinaryName.parse : String → Except DescriptorError BinaryName :=
  Descriptor.readAll Descriptor.classType

def RefType.parse : String → Except DescriptorError RefType :=
  Descriptor.readAll Descriptor.refType

def FieldType.parse : String → Except DescriptorError FieldType :=
  Descriptor.readAll Descriptor.fieldType

def MethodDescriptor.parse : String → Except DescriptorError MethodDescriptor :=
  Descriptor.readAll Descriptor.methodDescriptor

/-- Reads the name under which a class file stores a reference type. -/
def RefType.ofClassName (name : String) : Except DescriptorError RefType :=
  if name.toList.head? == some '[' then RefType.parse name
  else match BinaryName.ofString name with
    | .ok name => .ok (.object name)
    | .error fault => .error (.badName fault)

end ClassWeave
