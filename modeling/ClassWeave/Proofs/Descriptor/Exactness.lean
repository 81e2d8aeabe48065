import ClassWeave.Proofs.Descriptor.RoundTrip
import ClassWeave.Proofs.Outcome

/-!
# Descriptors are read exactly

What a reader takes off a text is spelt as it is printed. Together with reading back what was printed
this leaves one text for each type, and no other text is read.
-/

namespace ClassWeave

namespace BinaryName

theorem ofString_ok {text : String} {name : BinaryName} (named : ofString text = .ok name) :
    name.text = text := by
  unfold ofString at named
  split at named
  · cases named
  · cases named
    rfl

end BinaryName

theorem UnqualifiedName.ofString_ok {text : String} {name : UnqualifiedName}
    (named : ofString text = .ok name) : name.text = text := by
  unfold ofString at named
  split at named
  · cases named
  · cases named
    rfl

namespace Descriptor

open Outcome (bind_ok)

variable {α : Type}

/-- A printer and a reader that are inverse to each other: reading finds back what was printed, and
reads nothing else, so no two values share a text. -/
structure Exact (print : α → String) (read : String → Except DescriptorError α) : Prop where
  read_print : ∀ value, read (print value) = .ok value
  print_read : ∀ text value, read text = .ok value → print value = text
  reads_iff : ∀ text, (∃ value, read text = .ok value) ↔ ∃ value, print value = text
  print_injective : ∀ first second, print first = print second → first = second

/-- The two directions imply what they mean for the texts that are read and for values that print
alike. -/
theorem Exact.of_inverse {print : α → String} {read : String → Except DescriptorError α}
    (read_print : ∀ value, read (print value) = .ok value)
    (print_read : ∀ text value, read text = .ok value → print value = text) : Exact print read where
  read_print := read_print
  print_read := print_read
  reads_iff text := by
    constructor
    · intro ⟨value, done⟩
      exact ⟨value, print_read text value done⟩
    · intro ⟨value, printed⟩
      exact ⟨value, printed ▸ read_print value⟩
  print_injective first second same := by
    have firstRead := read_print first
    rw [same, read_print second] at firstRead
    cases firstRead
    rfl

/-- What a reader takes is what `chars` spells. -/
def Spells (chars : α → List Char) (reader : Reader α) : Prop :=
  ∀ {text rest : List Char} {value : α}, reader text = .ok (value, rest) → text = chars value ++ rest

theorem Exact.of_spells {chars : α → List Char} {reader : Reader α}
    (reads : ∀ value, reader (chars value) = .ok (value, [])) (spells : Spells chars reader) :
    Exact (fun value => String.ofList (chars value)) (readAll reader) := by
  apply Exact.of_inverse
  · intro value
    exact readAll_ok (reads value)
  · intro text value done
    unfold readAll at done
    split at done
    · cases done
    · rename_i whole
      cases done
      rw [← List.append_nil (chars value), ← spells whole, String.ofList_toList]
    · cases done

theorem baseTypeOf?_ok {c : Char} {type : BaseType} (found : baseTypeOf? c = some type) :
    type.letter = c := by
  unfold baseTypeOf? at found
  split at found <;> cases found <;> rfl

theorem spells_baseType : Spells (fun type => [type.letter]) baseType := by
  intro text rest type done
  cases text with
  | nil => cases done
  | cons c tail =>
    simp only [baseType] at done
    split at done
    · rename_i found
      cases done
      simp [baseTypeOf?_ok found]
    · cases done

/-- A name ends at the first semicolon. -/
theorem classBody_ok {seen text rest : List Char} {name : BinaryName}
    (done : classBody seen text = .ok (name, rest)) :
    seen.reverse ++ text = name.text.toList ++ ';' :: rest := by
  induction text generalizing seen with
  | nil => cases done
  | cons c tail ih =>
    simp only [classBody] at done
    by_cases ends : c = ';'
    · subst ends
      rw [if_pos (beq_self_eq_true _)] at done
      split at done
      · rename_i named
        cases done
        rw [BinaryName.ofString_ok named, String.toList_ofList]
      · cases done
    · rw [if_neg (by simpa using ends)] at done
      simpa using ih done

theorem spells_classBody {tail rest : List Char} {name : BinaryName}
    (done : classBody [] tail = .ok (name, rest)) :
    'L' :: tail = name.descriptorChars ++ rest := by
  simpa [BinaryName.descriptorChars] using classBody_ok done

theorem spells_classType : Spells BinaryName.descriptorChars classType := by
  intro text rest name done
  unfold classType at done
  split at done
  · exact spells_classBody done
  · cases done

theorem dimensions_ok {count total : Nat} {text rest : List Char}
    (counted : dimensions count text = (total, rest)) :
    List.replicate count '[' ++ text = List.replicate total '[' ++ rest := by
  fun_induction dimensions count text with
  | case1 count tail ih =>
    rw [← ih counted, List.replicate_succ']
    simp
  | case2 =>
    cases counted
    rfl

theorem spells_component : Spells Component.chars component := by
  intro text rest element done
  unfold component at done
  split at done
  · obtain ⟨⟨name, _⟩, named, done⟩ := bind_ok.mp done
    cases done
    exact spells_classBody named
  · obtain ⟨⟨type, _⟩, typed, done⟩ := bind_ok.mp done
    cases done
    exact spells_baseType typed

theorem spells_refType : Spells RefType.chars refType := by
  intro text rest type done
  unfold refType at done
  split at done
  · cases done
  · obtain ⟨⟨name, _⟩, named, done⟩ := bind_ok.mp done
    cases done
    exact spells_classBody named
  · rename_i tail
    obtain ⟨⟨element, _⟩, read, done⟩ := bind_ok.mp done
    cases done
    have brackets := dimensions_ok (rfl : dimensions 0 tail = (_, (dimensions 0 tail).2))
    rw [spells_component read] at brackets
    simp only [List.replicate_zero, List.nil_append] at brackets
    rw [RefType.chars, List.replicate_succ]
    simpa using brackets
  · cases done

theorem spells_fieldType : Spells FieldType.chars fieldType := by
  intro text rest type done
  cases text with
  | nil => cases done
  | cons c tail =>
    simp only [fieldType] at done
    split at done
    · obtain ⟨⟨type, _⟩, read, done⟩ := bind_ok.mp done
      cases done
      exact spells_refType read
    · obtain ⟨⟨type, _⟩, read, done⟩ := bind_ok.mp done
      cases done
      exact spells_baseType read

/-- The parameters end at the first parenthesis where another type could start. -/
theorem parameters_ok {seen types : List FieldType} {text rest : List Char}
    (done : parameters seen text = .ok (types, rest)) :
    seen.reverse.flatMap FieldType.chars ++ text = types.flatMap FieldType.chars ++ ')' :: rest := by
  fun_induction parameters seen text with
  | case1 => cases done
  | case2 seen c tail ends =>
    cases done
    rw [eq_of_beq ends]
  | case3 => cases done
  | case4 seen c tail _ type left read ih =>
    rw [← ih done, spells_fieldType read]
    simp

theorem spells_result : Spells resultChars result := by
  intro text rest type done
  unfold result at done
  split at done
  · cases done
    rfl
  · obtain ⟨⟨type, _⟩, read, done⟩ := bind_ok.mp done
    cases done
    exact spells_fieldType read

theorem spells_methodDescriptor : Spells MethodDescriptor.chars methodDescriptor := by
  intro text rest descriptor done
  unfold methodDescriptor at done
  split at done
  · obtain ⟨⟨types, afterTypes⟩, typesRead, done⟩ := bind_ok.mp done
    obtain ⟨⟨type, _⟩, resultRead, done⟩ := bind_ok.mp done
    cases done
    have spelt := parameters_ok typesRead
    rw [spells_result resultRead] at spelt
    simp only [List.reverse_nil, List.flatMap_nil, List.nil_append] at spelt
    simp [MethodDescriptor.chars, spelt]
  · cases done

theorem exact_baseType : Exact BaseType.render BaseType.parse :=
  .of_spells (fun type => by simp [baseType, baseTypeOf?_letter]) spells_baseType

theorem exact_binaryName : Exact BinaryName.render BinaryName.parse :=
  .of_spells (classBody_text · []) spells_classType

theorem exact_refType : Exact RefType.render RefType.parse :=
  .of_spells (fun type => by simpa using refType_chars type []) spells_refType

theorem exact_fieldType : Exact FieldType.render FieldType.parse :=
  .of_spells (fun type => by simpa using fieldType_chars type []) spells_fieldType

theorem exact_methodDescriptor : Exact MethodDescriptor.render MethodDescriptor.parse :=
  .of_spells methodDescriptor_chars spells_methodDescriptor

/-- A bracket at the start tells arrays from classes, in whose names it cannot be. -/
theorem exact_className : Exact RefType.className RefType.ofClassName := by
  apply Exact.of_inverse RefType.ofClassName_className
  intro text type done
  unfold RefType.ofClassName at done
  split at done
  · rename_i bracket
    have printed := exact_refType.print_read text type done
    cases type with
    | object name =>
      rw [← printed, RefType.render, String.toList_ofList] at bracket
      simp [RefType.chars, BinaryName.descriptorChars] at bracket
    | array extra element => exact printed
  · split at done
    · rename_i name named
      cases done
      exact BinaryName.ofString_ok named
    · cases done

/-- Primitive types, classes, references, field types and signatures, and the names under which class
files store references: each value is read back from what is printed of it, whatever is read is
printed as the text that it was read from, so that the texts read are the texts printed and no two
values share one. -/
theorem readers_exact :
    Exact BaseType.render BaseType.parse ∧ Exact BinaryName.render BinaryName.parse ∧
    Exact RefType.render RefType.parse ∧ Exact FieldType.render FieldType.parse ∧
    Exact MethodDescriptor.render MethodDescriptor.parse ∧
    Exact RefType.className RefType.ofClassName :=
  ⟨exact_baseType, exact_binaryName, exact_refType, exact_fieldType, exact_methodDescriptor,
    exact_className⟩

end Descriptor

end ClassWeave
