import ClassWeave.Proofs.Hook.SpecFile

/-!
# Faults of spec blocks

What keeps a block of a spec file from being completed, and how the wordings of its faults begin: no
block has a fault that could be taken for one that tells the number of a line.
-/

namespace ClassWeave

open Outcome (bind_error mapError_error)

/-- What keeps a block from being completed. -/
inductive SpecBlock.Incomplete (block : SpecBlock) : SpecFault → Prop where
  | noInterface : Incomplete block (.badLine (.noInterface block.className))
  | name (cause : NameError) : Incomplete block (.badName cause)
  | descriptor (text : String) (cause : DescriptorError) :
      Incomplete block (.badDescriptor (.badDescriptor text cause))
  | parameter (descriptor : MethodDescriptor) :
      Incomplete block (.primitiveArrayParameter descriptor)
  | noTargets : Incomplete block .noTargets
  | repeated {target : Target} (member : target ∈ block.targets) :
      Incomplete block (.repeatedTarget target.name target.descriptor)
  | target {target : Target} (member : target ∈ block.targets) (cause : TargetFault) :
      Incomplete block (.badTarget target.name target.descriptor cause)

theorem methodDescriptorOf_error {text : String} {fault : SpecFault}
    (failed : methodDescriptorOf text = .error fault) :
    ∃ cause, fault = .badDescriptor (.badDescriptor text cause) := by
  obtain ⟨cause, refused, rfl⟩ := mapError_error.mp failed
  unfold parseDescriptor at refused
  split at refused
  · cases refused
  · cases refused
    exact ⟨_, rfl⟩

theorem HookSpec.checkTargets_error {interface : InterfaceMethod}
    {seen : List (UnqualifiedName × MethodDescriptor)} {targets : List Target} {fault : SpecFault}
    (failed : checkTargets interface seen targets = .error fault) :
    ∃ target ∈ targets, fault = .repeatedTarget target.name target.descriptor ∨
      ∃ cause, fault = .badTarget target.name target.descriptor cause := by
  induction targets generalizing seen with
  | nil => cases failed
  | cons target rest ih =>
    simp only [checkTargets] at failed
    by_cases repeated : seen.contains (target.name, target.descriptor) = true
    · rw [if_pos repeated] at failed
      cases failed
      exact ⟨target, List.mem_cons_self, .inl rfl⟩
    rw [if_neg repeated] at failed
    cases unfit : target.fault? interface with
    | some cause =>
      rw [unfit] at failed
      cases failed
      exact ⟨target, List.mem_cons_self, .inr ⟨cause, rfl⟩⟩
    | none =>
      rw [unfit] at failed
      obtain ⟨other, member, found⟩ := ih failed
      exact ⟨other, List.mem_cons_of_mem target member, found⟩

theorem SpecBlock.finish_error {block : SpecBlock} {fault : SpecFault}
    (failed : block.finish = .error fault) : block.Incomplete fault := by
  unfold finish at failed
  split at failed
  · cases failed
    exact .noInterface
  rcases bind_error.mp failed with failed | ⟨interface, -, failed⟩
  · unfold InterfaceMethod.ofTexts at failed
    rcases bind_error.mp failed with failed | ⟨owner, -, failed⟩
    · obtain ⟨cause, -, rfl⟩ := mapError_error.mp failed
      exact .name cause
    rcases bind_error.mp failed with failed | ⟨name, -, failed⟩
    · obtain ⟨cause, -, rfl⟩ := mapError_error.mp failed
      exact .name cause
    rcases bind_error.mp failed with failed | ⟨_, -, failed⟩
    · obtain ⟨cause, rfl⟩ := methodDescriptorOf_error failed
      exact .descriptor _ cause
    · cases failed
  rcases bind_error.mp failed with failed | ⟨spec, -, failed⟩
  · unfold HookSpec.ofParts at failed
    split at failed
    · cases failed
      exact .parameter _
    split at failed
    · cases failed
      exact .noTargets
    rename_i targets listed
    rcases bind_error.mp failed with failed | ⟨_, -, failed⟩
    · obtain ⟨target, member, rfl | ⟨cause, rfl⟩⟩ := HookSpec.checkTargets_error failed
      · exact .repeated (List.mem_reverse.mp (listed ▸ member))
      · exact .target (List.mem_reverse.mp (listed ▸ member)) cause
    · cases failed
  · cases failed

/-- Does the wording begin with the number of a line? -/
def SpecFault.NamesLine (fault : SpecFault) (number : Nat) : Prop :=
  ∃ rest, fault.message = "line " ++ toString number ++ ": " ++ rest

theorem SpecFault.atLine_namesLine (number : Nat) (cause : SpecFault) :
    (atLine number cause).NamesLine number := ⟨cause.message, rfl⟩

/-- The number ends at the colon, so no other number is named. -/
theorem SpecFault.NamesLine.unique {fault : SpecFault} {number other : Nat}
    (names : fault.NamesLine number) (namesToo : fault.NamesLine other) : number = other := by
  obtain ⟨rest, worded⟩ := names
  obtain ⟨rest', wordedToo⟩ := namesToo
  have letters := congrArg String.toList (worded.symm.trans wordedToo)
  simp only [String.toList_append, List.append_assoc, List.append_cancel_left_eq,
    Nat.toString_eq_repr, Nat.toList_repr] at letters
  have numeral (n : Nat) (rest : List Char) :
      (Nat.toDigits 10 n ++ (": ".toList ++ rest)).takeWhile Char.isDigit = Nat.toDigits 10 n := by
    rw [List.takeWhile_append_of_pos fun c member =>
      Nat.isDigit_of_mem_toDigits (by decide) (by decide) member]
    simp
  have numerals := congrArg (List.takeWhile Char.isDigit) letters
  rw [numeral, numeral] at numerals
  have values := congrArg (Nat.ofDigitChars 10 · 0) numerals
  simpa only [Nat.ofDigitChars_ten_toDigits] using values

/-- A descriptor opens with a parenthesis, so a word in front of it is not taken for the number of a
line. -/
theorem MethodDescriptor.named_ne_line {name : String} (oneWord : ' ' ∉ name.toList)
    (descriptor : MethodDescriptor) (rest other : String) :
    name ++ descriptor.render ++ rest ≠ "line " ++ other := by
  intro same
  have letters := congrArg String.toList same
  simp only [render, chars, String.toList_append, String.toList_ofList, List.cons_append] at letters
  generalize name.toList = word at letters oneWord
  -- a name of five letters or more would have the blank, a shorter one leaves it to the parenthesis
  rcases word with _ | ⟨_, _ | ⟨_, _ | ⟨_, _ | ⟨_, _ | ⟨_, word⟩⟩⟩⟩⟩ <;> simp_all

theorem SpecFault.not_namesLine {fault : SpecFault}
    (other : fault.message.toList.head? ≠ some 'l') (number : Nat) : ¬ fault.NamesLine number := by
  rintro ⟨rest, worded⟩
  rw [worded] at other
  simp at other

/-- A block with the names of targets in one word each has no fault that begins like the number of a
line. -/
theorem SpecBlock.Incomplete.not_namesLine {block : SpecBlock} {fault : SpecFault}
    (incomplete : block.Incomplete fault)
    (oneWord : ∀ target ∈ block.targets, ' ' ∉ target.name.text.toList) (number : Nat) :
    ¬ fault.NamesLine number := by
  have ofTarget {target : Target} (member : target ∈ block.targets) {fault : SpecFault}
      (rest : String)
      (begins : fault.message = target.name.text ++ target.descriptor.render ++ rest) :
      ¬ fault.NamesLine number := by
    rintro ⟨other, worded⟩
    have numbered : "line " ++ toString number ++ ": " ++ other =
        "line " ++ (toString number ++ (": " ++ other)) := by simp only [String.append_assoc]
    exact target.descriptor.named_ne_line (oneWord target member) rest _
      (begins.symm.trans (worded.trans numbered))
  cases incomplete with
  | noInterface =>
    refine SpecFault.not_namesLine ?_ number
    change ("class " ++ block.className.text ++ _).toList.head? ≠ _
    simp
  | name cause =>
    refine SpecFault.not_namesLine ?_ number
    cases cause with
    | illegalCharacter segment =>
      change ("Unqualified name '" ++ segment ++ _).toList.head? ≠ _
      simp
    | emptySegment => exact by decide
    | emptyBinaryName => exact by decide
  | descriptor text cause =>
    refine SpecFault.not_namesLine ?_ number
    change ("bad descriptor " ++ Text.quoted text ++ ": " ++ cause.message).toList.head? ≠ _
    simp
  | parameter descriptor =>
    refine SpecFault.not_namesLine ?_ number
    change (String.ofList ('(' :: _) ++ _).toList.head? ≠ _
    simp
  | noTargets => exact SpecFault.not_namesLine (by decide) number
  | repeated member => exact ofTarget member _ rfl
  | target member cause => exact ofTarget member (": " ++ cause.message) (String.append_assoc ..)

end ClassWeave
