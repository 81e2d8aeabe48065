import ClassWeave.Proofs.Typing.Flow

/-!
# The labels of a body

A body says from where on labels are free. Its labels are well formed if each one before that has a
place of its own, and nothing refers to any other.
-/

namespace ClassWeave

/-- The labels that the item places or jumps to. -/
def Item.labels : Item → List Label
  | label mark => [mark]
  | branch jump => jump.targets
  | line _ | instruction _ => []

/-- The labels that items place, in order. -/
def Item.marks (items : List Item) : List Label := items.filterMap Item.label?

theorem Item.mem_marks {items : List Item} {label : Label} :
    label ∈ marks items ↔ .label label ∈ items := by
  rw [marks, List.mem_filterMap]
  constructor
  · rintro ⟨item, member, isLabel⟩
    cases item with
    | label mark =>
      cases isLabel
      exact member
    | line | instruction | branch => cases isLabel
  · intro member
    exact ⟨_, member, rfl⟩

theorem Item.marks_append (items others : List Item) :
    marks (items ++ others) = marks items ++ marks others := List.filterMap_append

theorem Item.marks_map {α : Type} {make : α → Item} (plain : ∀ value, (make value).label? = none)
    (values : List α) : marks (values.map make) = [] := by
  rw [marks, List.filterMap_eq_nil_iff, List.forall_mem_map]
  exact fun value _ => plain value

namespace Body

/-- A jump, a handler or the range of a variable refers to the label. -/
def Refers (body : Body) (label : Label) : Prop :=
  (∃ jump, .branch jump ∈ body.items ∧ label ∈ jump.targets) ∨
    (∃ handler ∈ body.handlers, label ∈ [handler.start, handler.stop, handler.target]) ∨
    ∃ range ∈ body.localVariables, label ∈ [range.start, range.stop]

/-- The label is placed, jumped to, or used by a table. -/
def Mentions (body : Body) (label : Label) : Prop :=
  .label label ∈ body.items ∨ (∃ jump, .branch jump ∈ body.items ∧ label ∈ jump.targets) ∨
    (∃ handler ∈ body.handlers, label ∈ [handler.start, handler.stop, handler.target]) ∨
    ∃ range ∈ body.localVariables, label ∈ [range.start, range.stop]

/-- The next label and those after it are free. -/
def LabelsBelow (body : Body) : Prop :=
  ∀ label, body.Mentions label → label.index < body.nextLabel.index

/-- The labels of a body fit together. -/
structure WellLabelled (body : Body) : Prop where
  /-- No label is placed twice. -/
  once : (Item.marks body.items).Nodup
  /-- The labels below the next one are placed, and no others. -/
  placed : ∀ label, .label label ∈ body.items ↔ label.index < body.nextLabel.index
  /-- Jumps, handlers and variable ranges refer to labels that are placed. -/
  refers : ∀ label, body.Refers label → .label label ∈ body.items
  /-- A handler is in charge from its start to a later place. -/
  forwards : ∀ handler ∈ body.handlers, ∃ start stop, body.LabelAt handler.start start ∧
    body.LabelAt handler.stop stop ∧ start < stop

variable {body : Body}

theorem exists_labelAt {label : Label} :
    (∃ position, body.LabelAt label position) ↔ .label label ∈ body.items :=
  List.mem_iff_getElem?.symm

theorem labels_ordered {related : Label → Label → Prop}
    (each : (Item.marks body.items).Pairwise related) {first second : Label} {place later : Nat}
    (firstPlaced : body.LabelAt first place) (secondPlaced : body.LabelAt second later)
    (before : place < later) : related first second := by
  obtain ⟨inside, isFirst⟩ := List.getElem?_eq_some_iff.mp firstPlaced
  obtain ⟨laterInside, isSecond⟩ := List.getElem?_eq_some_iff.mp secondPlaced
  have pair := List.pairwise_iff_getElem.mp (List.pairwise_filterMap.mp each) place later inside
    laterInside before
  rw [isFirst, isSecond] at pair
  exact pair first rfl second rfl

namespace WellLabelled

variable (well : body.WellLabelled)

include well

theorem unique {label : Label} {first second : Nat} (firstPlaced : body.LabelAt label first)
    (secondPlaced : body.LabelAt label second) : first = second := by
  rcases Nat.lt_trichotomy first second with before | same | behind
  · exact (labels_ordered well.once firstPlaced secondPlaced before rfl).elim
  · exact same
  · exact (labels_ordered well.once secondPlaced firstPlaced behind rfl).elim

theorem labelsBelow : body.LabelsBelow := by
  intro label mentions
  refine (well.placed label).mp ?_
  rcases mentions with placed | refers
  · exact placed
  · exact well.refers label refers

end WellLabelled

end Body

end ClassWeave
