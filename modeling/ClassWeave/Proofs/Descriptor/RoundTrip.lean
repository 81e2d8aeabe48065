import ClassWeave.Descriptor.Parser
import ClassWeave.Descriptor.Printer

/-!
# Descriptors are read back

What is printed of a type or a signature is read as that type or signature, whatever follows. That
names hold no reserved characters is what keeps them apart from the text around them.
-/

namespace ClassWeave

/-- The characters of a text are in its segments, apart from slashes. -/
private theorem mem_segmentsFrom {current text : List Char} {c : Char}
    (member : c ∈ current ∨ c ∈ text) :
    c = '/' ∨ ∃ segment ∈ segmentsFrom current text, c ∈ segment := by
  fun_induction segmentsFrom current text with
  | case1 current => exact .inr ⟨_, List.mem_cons_self, by simpa using member⟩
  | case2 current next rest isSlash ih =>
    rcases member with earlier | member
    · exact .inr ⟨_, List.mem_cons_self, List.mem_reverse.mpr earlier⟩
    · rcases List.mem_cons.mp member with rfl | later
      · exact .inl (eq_of_beq isSlash)
      · exact (ih (.inr later)).imp_right fun ⟨segment, listed, inside⟩ =>
          ⟨segment, List.mem_cons_of_mem _ listed, inside⟩
  | case3 current next rest other ih =>
    rcases member with earlier | member
    · exact ih (.inl (List.mem_cons_of_mem _ earlier))
    · rcases List.mem_cons.mp member with rfl | later
      · exact ih (.inl List.mem_cons_self)
      · exact ih (.inr later)

namespace BinaryName

/-- Slashes are the only reserved characters in the name of a class. -/
theorem not_isReserved (name : BinaryName) {c : Char} (member : c ∈ name.text.toList)
    (other : c ≠ '/') : isReserved c = false := by
  have valid := name.valid
  unfold binaryError? at valid
  split at valid
  · cases valid
  · obtain isSlash | ⟨segment, listed, inside⟩ := @mem_segmentsFrom [] _ _ (.inr member)
    · exact (other isSlash).elim
    · have fine := List.findSome?_eq_none_iff.mp valid segment listed
      unfold segmentError? at fine
      split at fine
      · cases fine
      · rename_i none
        simp only [List.any_eq_true, not_exists, not_and, Bool.not_eq_true] at none
        exact none c inside

theorem ne_semicolon (name : BinaryName) {c : Char} (member : c ∈ name.text.toList) :
    c ≠ ';' := by
  rintro rfl
  exact absurd (name.not_isReserved member (by decide)) (by decide)

theorem ne_bracket (name : BinaryName) {c : Char} (member : c ∈ name.text.toList) :
    c ≠ '[' := by
  rintro rfl
  exact absurd (name.not_isReserved member (by decide)) (by decide)

theorem ofString_text (name : BinaryName) : ofString name.text = .ok name := by
  unfold ofString
  split
  · rename_i fault found
    rw [name.valid] at found
    cases found
  · rfl

end BinaryName

theorem UnqualifiedName.ofString_text (name : UnqualifiedName) : ofString name.text = .ok name := by
  unfold ofString
  split
  · rename_i fault found
    rw [name.valid] at found
    cases found
  · rfl

namespace Descriptor

variable {α : Type}

theorem baseTypeOf?_letter (type : BaseType) : baseTypeOf? type.letter = some type := by
  cases type <;> rfl

private theorem classBody_chars (seen : List Char) {text : List Char} (rest : List Char)
    (plain : ∀ c ∈ text, c ≠ ';') {name : BinaryName}
    (named : BinaryName.ofString (String.ofList (seen.reverse ++ text)) = .ok name) :
    classBody seen (text ++ ';' :: rest) = .ok (name, rest) := by
  induction text generalizing seen with
  | nil =>
    rw [List.append_nil] at named
    simp [classBody, named]
  | cons c text ih =>
    obtain ⟨other, plain⟩ := List.forall_mem_cons.mp plain
    rw [List.cons_append, classBody, if_neg (by simpa using other)]
    exact ih (c :: seen) plain (by simpa using named)

theorem classBody_text (name : BinaryName) (rest : List Char) :
    classBody [] (name.text.toList ++ ';' :: rest) = .ok (name, rest) := by
  refine classBody_chars [] rest (fun c => name.ne_semicolon) ?_
  rw [List.reverse_nil, List.nil_append, String.ofList_toList]
  exact name.ofString_text

theorem component_chars (element : Component) (rest : List Char) :
    component (element.chars ++ rest) = .ok (element, rest) := by
  cases element with
  | base type => cases type <;> rfl
  | object name =>
    simp [Component.chars, BinaryName.descriptorChars, component, classBody_text, bind, Except.bind,
      pure, Except.pure]

private theorem dimensions_chars (count more : Nat) (element : Component) (rest : List Char) :
    dimensions count (List.replicate more '[' ++ (element.chars ++ rest)) =
      (count + more, element.chars ++ rest) := by
  induction more generalizing count with
  | zero =>
    cases element with
    | base type => cases type <;> rfl
    | object name => rfl
  | succ more ih =>
    rw [List.replicate_succ, List.cons_append, dimensions, ih, Nat.add_right_comm, Nat.add_assoc]

theorem refType_chars (type : RefType) (rest : List Char) :
    refType (type.chars ++ rest) = .ok (type, rest) := by
  cases type with
  | object name =>
    simp [RefType.chars, BinaryName.descriptorChars, refType, classBody_text, bind, Except.bind,
      pure, Except.pure]
  | array extra element =>
    rw [RefType.chars, List.replicate_succ, List.cons_append, List.cons_append, refType,
      List.append_assoc, dimensions_chars, Nat.zero_add]
    simp only [component_chars, bind, Except.bind, pure, Except.pure]

/-- What a type starts with tells a reference from a primitive. -/
theorem fieldType_chars (type : FieldType) (rest : List Char) :
    fieldType (type.chars ++ rest) = .ok (type, rest) := by
  cases type with
  | base type => cases type <;> rfl
  | ref type =>
    have read := refType_chars type rest
    cases type with
    | object name =>
      rw [FieldType.chars, RefType.chars, BinaryName.descriptorChars, List.cons_append,
        List.cons_append] at *
      simp only [fieldType, beq_self_eq_true, Bool.true_or, if_true, read, bind, Except.bind, pure,
        Except.pure]
    | array extra element =>
      rw [FieldType.chars, RefType.chars, List.replicate_succ, List.cons_append,
        List.cons_append] at *
      simp only [fieldType, beq_self_eq_true, Bool.or_true, if_true, read, bind, Except.bind, pure,
        Except.pure]

/-- No type starts with what closes the parameters of a method, nor with the sign for no result. -/
theorem fieldType_chars_cons (type : FieldType) :
    ∃ c tail, type.chars = c :: tail ∧ c ≠ ')' ∧ c ≠ 'V' := by
  cases type with
  | base type => cases type <;> exact ⟨_, _, rfl, by decide, by decide⟩
  | ref type => cases type <;> exact ⟨_, _, rfl, by decide, by decide⟩

theorem parameters_chars (seen types : List FieldType) (rest : List Char) :
    parameters seen (types.flatMap FieldType.chars ++ ')' :: rest) =
      .ok (seen.reverse ++ types, rest) := by
  induction types generalizing seen with
  | nil => simp [parameters]
  | cons type types ih =>
    obtain ⟨c, tail, spelt, notClosing, -⟩ := fieldType_chars_cons type
    have read := fieldType_chars type (types.flatMap FieldType.chars ++ ')' :: rest)
    rw [List.flatMap_cons, List.append_assoc, spelt, List.cons_append] at *
    rw [parameters, if_neg (by simpa using notClosing)]
    split
    · rename_i fault found
      rw [read] at found
      cases found
    · rename_i other left found
      rw [read] at found
      cases found
      rw [ih, List.reverse_cons, List.append_assoc]
      rfl

theorem result_chars (type : Option FieldType) : result (resultChars type) = .ok (type, []) := by
  cases type with
  | none => rfl
  | some type =>
    obtain ⟨c, tail, spelt, -, notVoid⟩ := fieldType_chars_cons type
    have read := fieldType_chars type []
    rw [List.append_nil] at read
    rw [resultChars, spelt] at *
    rw [result]
    · rw [read]
      rfl
    · rintro rest same
      cases same
      exact notVoid rfl

theorem methodDescriptor_chars (descriptor : MethodDescriptor) :
    methodDescriptor descriptor.chars = .ok (descriptor, []) := by
  rw [MethodDescriptor.chars, List.cons_append, methodDescriptor, parameters_chars]
  simp only [bind, Except.bind, result_chars, pure, Except.pure]
  rfl

theorem readAll_ok {reader : Reader α} {chars : List Char} {value : α}
    (read : reader chars = .ok (value, [])) : readAll reader (String.ofList chars) = .ok value := by
  rw [readAll, String.toList_ofList, read]

end Descriptor

theorem RefType.parse_render (type : RefType) : RefType.parse type.render = .ok type :=
  Descriptor.readAll_ok (by simpa using Descriptor.refType_chars type [])

theorem FieldType.parse_render (type : FieldType) : FieldType.parse type.render = .ok type :=
  Descriptor.readAll_ok (by simpa using Descriptor.fieldType_chars type [])

theorem MethodDescriptor.parse_render (descriptor : MethodDescriptor) :
    MethodDescriptor.parse descriptor.render = .ok descriptor :=
  Descriptor.readAll_ok (Descriptor.methodDescriptor_chars descriptor)

/-- The name that a class file stores leads back to the type. -/
theorem RefType.ofClassName_className (type : RefType) : ofClassName type.className = .ok type := by
  unfold ofClassName
  cases type with
  | object name =>
    have plain : name.text.toList.head? ≠ some '[' := fun starts =>
      name.ne_bracket (List.mem_of_head? starts) rfl
    rw [className, if_neg (by simpa using plain), name.ofString_text]
  | array extra element =>
    rw [if_pos, className]
    · exact parse_render _
    · simp
    · simp [className, render, chars, List.replicate_succ]

end ClassWeave
