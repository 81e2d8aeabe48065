import ClassWeave.Proofs.Code.Relisting

/-!
# Disassembly places labels

In a body made from bytecode, every label that has been handed out has one place, and nothing refers
to any other label. Labels are placed in the order of their numbers, so no range is backwards.
-/

namespace ClassWeave

namespace Disassembly

theorem Step.marks_items {step : Step} (isCode : step.code.isCode = true) :
    Item.marks step.items = step.mark.toList := by
  have label : Item.marks (step.mark.toList.map Item.label) = step.mark.toList := by
    cases step.mark <;> rfl
  have lines : Item.marks (step.lines.map Item.line) = [] := Item.marks_map (fun _ => rfl) _
  have code : Item.marks [step.code] = [] := by
    cases item : step.code with
    | label | line =>
      rw [item] at isCode
      cases isCode
    | instruction | branch => rfl
  rw [Step.items, Step.marks, Item.marks_append, Item.marks_append, label, lines, code,
    List.append_nil, List.append_nil]

/-- The labels of an outline are those of its items. -/
theorem Outline.marks_items {outline : Outline}
    (codes : ∀ step ∈ outline.steps, step.code.isCode = true) :
    Item.marks outline.items = outline.marks.filterMap id := by
  obtain ⟨steps, last⟩ := outline
  have behind : Item.marks (last.toList.map Item.label) = [last].filterMap id := by
    cases last <;> rfl
  rw [Outline.items, Outline.marks, Item.marks_append, List.filterMap_append, behind]
  congr 1
  induction steps with
  | nil => rfl
  | cons step steps ih =>
    obtain ⟨isCode, codes⟩ := List.forall_mem_cons.mp codes
    rw [List.flatMap_cons, Item.marks_append, Step.marks_items isCode, ih codes]
    cases mark : step.mark <;> simp [mark]

namespace Outline.Spells

variable {outline : Outline} {constants : ConstantTable} {body : Body}
  (spells : outline.Spells constants body)

include spells

/-- Labels are placed in the order of their numbers. -/
theorem marks_eq : Item.marks body.items = (List.range body.nextLabel.index).map Label.mk := by
  rw [spells.items, Outline.marks_items fun step member => (spells.read step member).isCode,
    spells.numbered]

theorem placed_iff {label : Label} :
    .label label ∈ body.items ↔ label.index < body.nextLabel.index := by
  rw [← Item.mem_marks, spells.marks_eq, List.mem_map]
  constructor
  · rintro ⟨index, inside, rfl⟩
    exact List.mem_range.mp inside
  · intro inside
    exact ⟨label.index, List.mem_range.mpr inside, rfl⟩

theorem ascending : (Item.marks body.items).Pairwise fun first second =>
    first.index < second.index := by
  rw [spells.marks_eq]
  exact List.pairwise_map.mpr List.pairwise_lt_range

theorem placed_of_marks {label : Label} (marks : outline.Marks label) :
    .label label ∈ body.items := by
  rw [← Item.mem_marks, spells.items,
    Outline.marks_items fun step member => (spells.read step member).isCode]
  exact List.mem_filterMap.mpr ⟨some label, marks, rfl⟩

theorem wellLabelled : body.WellLabelled where
  once := spells.ascending.imp fun below same => Nat.ne_of_lt below (congrArg Label.index same)
  placed _ := spells.placed_iff
  refers _ refers := spells.placed_of_marks (spells.marks refers)
  forwards := by
    intro handler member
    obtain ⟨starts, marks, -, below⟩ := spells.handlers handler member
    obtain ⟨start, startPlaced⟩ := Body.exists_labelAt.mpr (spells.placed_of_marks starts.marks)
    obtain ⟨stop, stopPlaced⟩ := Body.exists_labelAt.mpr (spells.placed_of_marks marks)
    refine ⟨start, stop, startPlaced, stopPlaced, ?_⟩
    rcases Nat.lt_trichotomy start stop with before | same | behind
    · exact before
    · -- one place has one label
      subst same
      have label := Item.label.inj (Option.some.inj (startPlaced.symm.trans stopPlaced))
      rw [label] at below
      exact (Nat.lt_irrefl _ below).elim
    · have above := Body.labels_ordered spells.ascending stopPlaced startPlaced behind
      exact (Nat.lt_asymm below above).elim

end Outline.Spells

end Disassembly

/-- The labels of a body that is made from bytecode fit together. -/
theorem Body.ofCode_wellLabelled {code : CodeAttribute} {constants : ConstantTable} {body : Body}
    (done : Body.ofCode code constants = .ok body) : body.WellLabelled := by
  obtain ⟨outline, spells⟩ := Body.ofCode_spells done
  exact spells.wellLabelled

end ClassWeave
