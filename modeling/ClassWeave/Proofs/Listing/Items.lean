import Mathlib
import ClassWeave.Listing.Code
import ClassWeave.Proofs.Code.Straight
import ClassWeave.Proofs.Descriptor.Exactness
import ClassWeave.Proofs.Listing.Values

/-!
# Listed items are read back

No two instructions share a mnemonic with operands of one shape. So a listed instruction is read
back, a jump is never taken for an instruction, and the items of a listing are found in its order.
-/

namespace ClassWeave

namespace Plain

theorem byMnemonic_mnemonic (op : Plain) : byMnemonic[op.mnemonic]? = some op := by
  have distinct : all.Pairwise fun first second => (first.mnemonic == second.mnemonic) = false := by
    decide +kernel
  refine Std.HashMap.getElem?_ofList_of_mem (k := op.mnemonic) (by simp) ?_ ?_
  · exact List.pairwise_map.mpr distinct
  · exact List.mem_map.mpr ⟨op, mem_all op, rfl⟩

theorem byMnemonic_other {name : String} (other : ∀ op ∈ all, op.mnemonic ≠ name) :
    byMnemonic[name]? = none := by
  apply Std.HashMap.getElem?_ofList_of_contains_eq_false
  simpa [List.contains_eq_any_beq] using other

end Plain

theorem BaseType.parse_render (type : BaseType) : parse type.render = .ok type :=
  Descriptor.exact_baseType.read_print type

namespace Instruction

section

variable {ω : OperandKind → Type} (operand : (kind : OperandKind) → Term → Option (ω kind))

theorem ofTerm?_load (kind : SlotKind) (slot : Term) :
    ofTerm? operand (.call (kind.letter ++ "load") [slot]) = (do
      return load kind (← slot.toUInt16?)) := by
  cases kind <;> rfl

theorem ofTerm?_store (kind : SlotKind) (slot : Term) :
    ofTerm? operand (.call (kind.letter ++ "store") [slot]) = (do
      return store kind (← slot.toUInt16?)) := by
  cases kind <;> rfl

theorem ofTerm?_field (op : FieldOp) (field : Term) :
    ofTerm? operand (.call op.mnemonic [field]) = (do
      return .field op (← operand .field field)) := by
  cases op <;> rfl

theorem ofTerm?_onClass (op : ClassOp) (type : Term) :
    ofTerm? operand (.call op.mnemonic [type]) = (do
      return onClass op (← operand .classRef type)) := by
  cases op <;> rfl

theorem ofTerm?_label (mark : Term) : ofTerm? operand (.call "label" [mark]) = none :=
  rfl

theorem ofTerm?_line (number : Term) : ofTerm? operand (.call "line" [number]) = none :=
  rfl

end

/-- The reader of the mnemonic and the readers of the operands find an instruction again. -/
theorem ofTerm?_toTerm (step : SymInstruction) :
    ofTerm? Symbolic.ofTerm? step.toTerm = some step := by
  -- each case is first brought to the step of the reader that its mnemonic leads to
  cases step with
  | plain op => simp [toTerm, arguments, ofTerm?, mnemonic, operand?, Plain.byMnemonic_mnemonic]
  | pushByte value =>
    change (do return pushByte (Int8.ofInt (← (Term.number value.toInt).toInt?))) = _
    simp
  | pushShort value =>
    change (do return pushShort (Int16.ofInt (← (Term.number value.toInt).toInt?))) = _
    simp
  | loadConstant constant =>
    change (do return loadConstant (← Symbolic.ofTerm? .loadable (Symbolic.toTerm constant))) = _
    simp
  | loadWideConstant constant =>
    change (do
      return loadWideConstant (← Symbolic.ofTerm? .loadable (Symbolic.toTerm constant))) = _
    simp
  | load kind slot =>
    change ofTerm? _ (.call (kind.letter ++ "load") [.ofUInt16 slot]) = _
    simp [ofTerm?_load]
  | store kind slot =>
    change ofTerm? _ (.call (kind.letter ++ "store") [.ofUInt16 slot]) = _
    simp [ofTerm?_store]
  | increment slot amount =>
    change (do
      return increment (← (Term.ofUInt16 slot).toUInt16?)
        (Int16.ofInt (← (Term.number amount.toInt).toInt?))) = _
    simp
  | field op ref =>
    change ofTerm? _ (.call op.mnemonic [Symbolic.toTerm ref]) = _
    simp [ofTerm?_field]
  | invoke kind method =>
    cases kind with
    | interface slots =>
      change (do
        return invoke (.interface (UInt8.ofNat (← (Term.number slots.toNat).toNat?)))
          (← Symbolic.ofTerm? .method (Symbolic.toTerm method))) = _
      simp
    | virtual =>
      change (do return invoke .virtual (← Symbolic.ofTerm? .method (Symbolic.toTerm method))) = _
      simp
    | special =>
      change (do return invoke .special (← Symbolic.ofTerm? .method (Symbolic.toTerm method))) = _
      simp
    | static =>
      change (do return invoke .static (← Symbolic.ofTerm? .method (Symbolic.toTerm method))) = _
      simp
  | invokeDynamic site =>
    change (do return invokeDynamic (← Symbolic.ofTerm? .callSite (Symbolic.toTerm site))) = _
    simp
  | onClass op type =>
    change ofTerm? _ (.call op.mnemonic [Symbolic.toTerm type]) = _
    simp [ofTerm?_onClass]
  | newPrimitiveArray type =>
    change (do
      return newPrimitiveArray
        (← (BaseType.parse (← (Term.text type.render).toText?)).toOption)) = _
    simp [BaseType.parse_render, Except.toOption]
  | newMultiArray type dimensions =>
    change (do
      return newMultiArray (← Symbolic.ofTerm? .classRef (Symbolic.toTerm type))
        (UInt8.ofNat (← (Term.number dimensions.toNat).toNat?))) = _
    simp

end Instruction

namespace Branch

variable {τ : Type} {target : τ → Term} {target? : Term → Option τ}

theorem ofTerm?_jumpIf (test : Test) (label : Term) :
    ofTerm? target? (.call test.mnemonic [label]) = (do
      return jumpIf test (← target? label)) := by
  cases test with
  | zero comparison => cases comparison <;> rfl
  | ints comparison => cases comparison <;> rfl
  | references equality => cases equality <;> rfl
  | null equality => cases equality <;> rfl

/-- Branches are read back if their targets are. -/
theorem ofTerm?_toTerm (targets : ∀ label, target? (target label) = some label)
    (branch : Branch τ) : ofTerm? target? (branch.toTerm target) = some branch := by
  cases branch with
  | jumpIf test label =>
    change ofTerm? target? (.call test.mnemonic [target label]) = _
    simp [ofTerm?_jumpIf, targets]
  | goto label =>
    change (do return goto (← target? (target label))) = _
    simp [targets]
  | tableSwitch default low labels =>
    change (do
      return tableSwitch (← target? (target default))
        (Int32.ofInt (← (Term.number low.toInt).toInt?))
        (← (labels.map target).mapM target?)) = _
    simp [targets, Term.mapM_map targets]
  | lookupSwitch default entries =>
    let caseTerm (entry : Int32 × τ) : Term := .list [.number entry.1.toInt, target entry.2]
    have readBack : (entries.map caseTerm).mapM (caseOfTerm? target?) = some entries :=
      Term.mapM_map (fun entry => by simp [caseTerm, caseOfTerm?, targets]) entries
    change (do
      return lookupSwitch (← target? (target default))
        (← (entries.map caseTerm).mapM (caseOfTerm? target?))) = _
    simp [targets, readBack]
  | ret kind => cases kind <;> rfl
  | athrow => rfl

/-- No branch is taken for an instruction. -/
theorem notInstruction (branch : Branch τ) :
    Instruction.ofTerm? Symbolic.ofTerm? (branch.toTerm target) = none := by
  cases branch with
  | jumpIf test label =>
    cases test with
    | zero comparison => cases comparison <;> rfl
    | ints comparison => cases comparison <;> rfl
    | references equality => cases equality <;> rfl
    | null equality => cases equality <;> rfl
  | goto label => rfl
  | tableSwitch default low labels => rfl
  | lookupSwitch default entries => rfl
  | ret kind =>
    have other : ∀ op ∈ Plain.all, op.mnemonic ≠ kind.mnemonic := by
      cases kind <;> decide +kernel
    simp [toTerm, mnemonic, Instruction.ofTerm?, Plain.byMnemonic_other other]
  | athrow =>
    have other : ∀ op ∈ Plain.all, op.mnemonic ≠ "athrow" := by
      decide +kernel
    simp [toTerm, mnemonic, Instruction.ofTerm?, Plain.byMnemonic_other other]

end Branch

@[simp] theorem Label.ofTerm?_toTerm (label : Label) : ofTerm? label.toTerm = some label := by
  simp [ofTerm?, toTerm]

namespace Item

/-- What is an instruction or a branch is listed neither as a label nor as a line. -/
theorem ofTerm?_step {term : Term}
    (isStep : Instruction.ofTerm? Symbolic.ofTerm? term ≠ none ∨
      Branch.ofTerm? Label.ofTerm? term ≠ none) :
    ofTerm? term = ((instruction <$> Instruction.ofTerm? Symbolic.ofTerm? term)
      <|> (branch <$> Branch.ofTerm? Label.ofTerm? term)) := by
  unfold ofTerm?
  split
  · rename_i mark isLabel
    rw [Term.toCall?_eq_some.mp isLabel] at isStep
    cases isStep with
    | inl isStep => exact absurd (Instruction.ofTerm?_label _ mark) isStep
    | inr isStep => exact absurd rfl isStep
  · rename_i number isLine
    rw [Term.toCall?_eq_some.mp isLine] at isStep
    cases isStep with
    | inl isStep => exact absurd (Instruction.ofTerm?_line _ number) isStep
    | inr isStep => exact absurd rfl isStep
  · rfl

theorem ofTerm?_toTerm (item : Item) : ofTerm? item.toTerm = some item := by
  cases item with
  | label mark =>
    change label <$> Label.ofTerm? mark.toTerm = _
    simp
  | line number =>
    change line <$> (Term.ofUInt16 number).toUInt16? = _
    simp
  | instruction step =>
    have readBack := Instruction.ofTerm?_toTerm step
    rw [toTerm, ofTerm?_step (.inl (by simp [readBack])), readBack]
    rfl
  | branch jump =>
    have readBack := Branch.ofTerm?_toTerm Label.ofTerm?_toTerm jump
    rw [toTerm, ofTerm?_step (.inr (by simp [readBack])), readBack, Branch.notInstruction]
    rfl

theorem ofTerm?_rep (count term : Term) : ofTerm? (.list [.text "rep", count, term]) = none :=
  rfl

/-- Listed items are read back in order, after those that have been read. -/
theorem listFrom_map (seen items : List Item) :
    listFrom seen (items.map toTerm) = some (seen.reverse ++ items) := by
  induction items generalizing seen with
  | nil => simp [listFrom]
  | cons item items ih =>
    have readBack := ofTerm?_toTerm item
    rw [List.map_cons, listFrom]
    · simp [readBack, ih]
    · -- no item is listed as a repetition
      intro count term same
      rw [same, ofTerm?_rep] at readBack
      cases readBack

end Item

theorem Handler.ofTerm?_toTerm (handler : Handler) : ofTerm? handler.toTerm = some handler := by
  obtain ⟨start, stop, target, catchType⟩ := handler
  cases catchType <;> simp [toTerm, ofTerm?]

theorem VariableRange.ofTerm?_toTerm (range : VariableRange) :
    ofTerm? range.toTerm = some range := by
  simp [toTerm, ofTerm?]

end ClassWeave
