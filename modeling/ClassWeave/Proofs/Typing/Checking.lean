import ClassWeave.Proofs.Typing.Flow

/-!
# Checking straight through

Items that jump only to labels whose frames are known can be typed in one pass, without search. What
such a pass finds holds on every path: wherever control gets, the items from there on are checked
with the frame it gets there with.
-/

namespace ClassWeave

/-- The items lead from one frame to another, given the frames at labels. There is no frame where
control does not come through. -/
inductive Checks (method : MethodContext) (marks : Label → Option VFrame) :
    Nat → List Item → Option VFrame → Option VFrame → Prop where
  | nil {position : Nat} {frame : Option VFrame} : Checks method marks position [] frame frame
  | label {position : Nat} {label : Label} {items : List Item} {before after : Option VFrame}
      {frame : VFrame} (marked : marks label = some frame)
      (arrives : ∀ other, before = some other → other = frame)
      (rest : Checks method marks (position + 1) items (some frame) after) :
      Checks method marks position (.label label :: items) before after
  | item {position : Nat} {item : Item} {items : List Item} {before passed : VFrame}
      {after : Option VFrame} (noLabel : item.label? = none)
      (done : FlowGraph.after method position before item = .ok passed)
      (jumps : ∀ jump label, item = .branch jump → label ∈ jump.targets →
        marks label = some passed)
      (rest : Checks method marks (position + 1) items
        (if FlowGraph.fallsThrough item then some passed else none) after) :
      Checks method marks position (item :: items) (some before) after

namespace Checks

variable {method : MethodContext} {marks : Label → Option VFrame} {position : Nat}
  {items earlier later : List Item} {before passed : VFrame} {entry middle after : Option VFrame}

theorem instruction {step : SymInstruction}
    (done : before.execute method.thisClass position step = .ok passed)
    (rest : Checks method marks (position + 1) items (some passed) after) :
    Checks method marks position (.instruction step :: items) (some before) after :=
  .item rfl done (fun _ _ same => nomatch same) rest

theorem jumpIf {test : Test} {label : Label}
    (done : before.executeBranch method.descriptor.result (.jumpIf test label) = .ok passed)
    (marked : marks label = some passed)
    (rest : Checks method marks (position + 1) items (some passed) after) :
    Checks method marks position (.branch (.jumpIf test label) :: items) (some before) after := by
  refine .item rfl done ?_ rest
  rintro jump target same member
  cases same
  rwa [List.mem_singleton.mp member]

theorem goto {label : Label} (marked : marks label = some before)
    (rest : Checks method marks (position + 1) items none after) :
    Checks method marks position (.branch (.goto label) :: items) (some before) after := by
  refine .item rfl rfl ?_ rest
  rintro jump target same member
  cases same
  rwa [List.mem_singleton.mp member]

theorem ret {kind : ReturnKind}
    (done : before.executeBranch method.descriptor.result (.ret kind : Branch Label) = .ok passed)
    (rest : Checks method marks (position + 1) items none after) :
    Checks method marks position (.branch (.ret kind) :: items) (some before) after := by
  refine .item rfl done ?_ rest
  rintro jump target same member
  cases same
  cases member

theorem append (first : Checks method marks position earlier entry middle)
    (second : Checks method marks (position + earlier.length) later middle after) :
    Checks method marks position (earlier ++ later) entry after := by
  induction first with
  | nil => exact second
  | label marked arrives _ ih =>
    refine .label marked arrives (ih ?_)
    rwa [List.length_cons, ← Nat.add_assoc, Nat.add_right_comm] at second
  | item noLabel done jumps _ ih =>
    refine .item noLabel done jumps (ih ?_)
    rwa [List.length_cons, ← Nat.add_assoc, Nat.add_right_comm] at second

/-- Behind some of the items, the others are checked with the frame that comes through. -/
theorem drop (checks : Checks method marks position items entry after) {count : Nat}
    (inside : count ≤ items.length) :
    ∃ middle, Checks method marks (position + count) (items.drop count) middle after := by
  induction count generalizing position items entry with
  | zero => exact ⟨entry, checks⟩
  | succ count ih =>
    have along : position + (count + 1) = position + 1 + count := by omega
    rw [along]
    cases checks with
    | nil => cases inside
    | label _ _ rest => exact ih rest (Nat.le_of_succ_le_succ inside)
    | item _ _ _ rest => exact ih rest (Nat.le_of_succ_le_succ inside)

end Checks

/-- Control gets to a position of a body with a frame, if it enters the body with another. The body
stands at `base` in its method. -/
inductive Body.Arrives (body : Body) (method : MethodContext) (base : Nat) (entry : VFrame) :
    Nat → VFrame → Prop where
  | entry : Arrives body method base entry 0 entry
  | step {position next : Nat} {item : Item} {before after : VFrame}
      (arrives : Arrives body method base entry position before)
      (found : body.items[position]? = some item)
      (done : FlowGraph.after method (base + position) before item = .ok after)
      (leads : body.Successor position next) : Arrives body method base entry next after

namespace Checks

variable {body : Body} {method : MethodContext} {marks : Label → Option VFrame} {base : Nat}
  {items : List Item} {entry frame : VFrame} {after : Option VFrame} {skip : Label}
  {position : Nat}

/-- The items from a position on are checked with a frame there. -/
structure FromAt (method : MethodContext) (marks : Label → Option VFrame) (base : Nat)
    (items : List Item) (after : Option VFrame) (position : Nat) (frame : VFrame) : Prop where
  inside : position ≤ items.length
  checks : Checks method marks (base + position) (items.drop position) (some frame) after

namespace FromAt

/-- At an item, the check of the rest begins with the check of the item. -/
theorem here (there : FromAt method marks base items after position frame) {item : Item}
    (found : items[position]? = some item) :
    Checks method marks (base + position) (item :: items.drop (position + 1)) (some frame) after := by
  obtain ⟨inside, rfl⟩ := List.getElem?_eq_some_iff.mp found
  rw [← List.drop_eq_getElem_cons inside]
  exact there.checks

/-- At the end is the frame that comes through. -/
theorem ending (there : FromAt method marks base items after items.length frame) :
    after = some frame := by
  have checks := there.checks
  rw [List.drop_length] at checks
  cases checks
  rfl

theorem done (there : FromAt method marks base items after position frame) {item : Item}
    (found : items[position]? = some item) :
    ∃ passed, FlowGraph.after method (base + position) frame item = .ok passed := by
  cases there.here found with
  | label => exact ⟨frame, rfl⟩
  | item _ done => exact ⟨_, done⟩

/-- At a label there is only one frame. -/
theorem marked (there : FromAt method marks base items after position frame) {label : Label}
    (found : items[position]? = some (.label label)) : marks label = some frame := by
  cases there.here found with
  | label marked arrives => rw [marked, arrives frame rfl]
  | item noLabel => cases noLabel

/-- The items behind one that control comes through are checked with what it passes on. -/
theorem next (there : FromAt method marks base items after position frame) {item : Item}
    (found : items[position]? = some item) {passed : VFrame}
    (done : FlowGraph.after method (base + position) frame item = .ok passed)
    (falls : FlowGraph.fallsThrough item = true) :
    FromAt method marks base items after (position + 1) passed := by
  refine ⟨(List.getElem?_eq_some_iff.mp found).1, ?_⟩
  cases there.here found with
  | label _ arrives rest =>
    cases done
    rwa [← arrives frame rfl] at rest
  | item _ expected _ rest =>
    cases Except.ok.inj (expected.symm.trans done)
    rwa [if_pos falls] at rest

/-- What a jump passes on is the frame at the label. -/
theorem jumps (there : FromAt method marks base items after position frame)
    {jump : Branch Label} {label : Label} (found : items[position]? = some (.branch jump))
    (member : label ∈ jump.targets) {passed : VFrame}
    (done : FlowGraph.after method (base + position) frame (.branch jump) = .ok passed) :
    marks label = some passed := by
  cases there.here found with
  | item _ expected jumps _ =>
    cases Except.ok.inj (expected.symm.trans done)
    exact jumps jump label rfl member

/-- Wherever a label stands, the items from there on are checked with its frame. -/
theorem of_label (whole : Checks method marks base items entry after) {label : Label}
    (found : items[position]? = some (.label label)) (marked : marks label = some frame) :
    FromAt method marks base items after position frame := by
  obtain ⟨inside, same⟩ := List.getElem?_eq_some_iff.mp found
  refine ⟨Nat.le_of_lt inside, ?_⟩
  obtain ⟨middle, checks⟩ := whole.drop (Nat.le_of_lt inside)
  rw [List.drop_eq_getElem_cons inside, same] at checks ⊢
  cases checks with
  | label expected _ rest =>
    cases Option.some.inj (expected.symm.trans marked)
    exact .label expected (fun _ same => (Option.some.inj same).symm) rest
  | item noLabel => cases noLabel

/-- Control goes on to where the items are checked with what it brings, or jumps to the label behind
them. -/
theorem step (whole : Checks method marks base items entry after)
    (placed : body.items = items ++ [.label skip])
    (there : FromAt method marks base items after position frame) {item : Item}
    (found : items[position]? = some item) {passed : VFrame}
    (done : FlowGraph.after method (base + position) frame item = .ok passed) {target : Nat}
    (leads : body.Successor position target) :
    FromAt method marks base items after target passed ∨
      (target = items.length ∧ marks skip = some passed) := by
  have foundThere : body.items[position]? = some item := by
    rw [placed, List.getElem?_append_left (List.getElem?_eq_some_iff.mp found).1, found]
  cases leads with
  | next same falls =>
    cases Option.some.inj (same.symm.trans foundThere)
    exact .inl (there.next found done falls)
  | jump same member target =>
    cases Option.some.inj (same.symm.trans foundThere)
    have marked := there.jumps found member done
    rw [Body.LabelAt, placed, List.getElem?_append] at target
    split at target
    · exact .inl (of_label whole target marked)
    · obtain ⟨bound, same⟩ := List.getElem?_eq_some_iff.mp target
      have ending : _ - items.length = 0 := Nat.lt_one_iff.mp bound
      simp only [ending, List.getElem_cons_zero, Item.label.injEq] at same
      exact .inr ⟨by omega, same ▸ marked⟩

/-- Wherever control gets, the items from there on are checked with the frame it gets there with,
or it has jumped to the label behind them, or it has left them behind. -/
theorem of_arrives (whole : Checks method marks base items (some entry) after)
    (placed : body.items = items ++ [.label skip])
    (arrives : body.Arrives method base entry position frame) :
    FromAt method marks base items after position frame ∨
      (position = items.length ∧ marks skip = some frame) ∨ items.length < position := by
  induction arrives with
  | entry => exact .inl ⟨Nat.zero_le _, whole⟩
  | @step position next item before passed _ found done leads ih =>
    have landing (here : items.length ≤ position) : items.length < next := by
      have mark : item = .label skip := by
        rw [placed, List.getElem?_append_right here] at found
        exact List.mem_singleton.mp (List.mem_of_getElem? found)
      subst mark
      cases leads with
      | jump same => cases found.symm.trans same
      | next => exact Nat.lt_succ_of_le here
    rcases ih with there | ⟨rfl, -⟩ | beyond
    · by_cases before : position < items.length
      · rw [placed, List.getElem?_append_left before] at found
        exact (there.step whole placed found done leads).imp_right .inl
      · exact .inr (.inr (landing (Nat.le_of_not_lt before)))
    · exact .inr (.inr (landing (Nat.le_refl _)))
    · exact .inr (.inr (landing (Nat.le_of_lt beyond)))

end FromAt

end Checks

/-- What it takes for items with a label behind them to be put into a method at a frame. Nothing on
the paths through them fails, labels have one frame each, and paths end in a return or at the label
behind: by a jump with the frame from the start, or from the last item with the frame that comes
through. -/
structure Body.Embeds (body : Body) (method : MethodContext) (base : Nat) (entry : VFrame)
    (skip : Label) (through : Option VFrame) : Prop where
  done {position : Nat} {frame : VFrame} {item : Item} :
    body.Arrives method base entry position frame → body.items[position]? = some item →
      ∃ after, FlowGraph.after method (base + position) frame item = .ok after
  agrees {position : Nat} {frame other : VFrame} {label : Label} :
    body.Arrives method base entry position frame → body.Arrives method base entry position other →
      body.LabelAt label position → label ≠ skip → frame = other
  placed {jump : Branch Label} {label : Label} :
    .branch jump ∈ body.items → label ∈ jump.targets → ∃ target, body.LabelAt label target
  ends {position : Nat} {item : Item} : body.items[position]? = some item →
    (∃ kind, item = .branch (.ret kind)) ∨ item = .label skip ∨
      ((∃ next, body.Successor position next) ∧
        ∀ next, body.Successor position next → next < body.items.length)
  lands {position target : Nat} {frame after : VFrame} {item : Item} :
    body.Arrives method base entry position frame → body.items[position]? = some item →
      FlowGraph.after method (base + position) frame item = .ok after →
      body.Successor position target → body.LabelAt skip target →
        (after = entry ∧ ∃ jump, item = .branch jump ∧ skip ∈ jump.targets) ∨
          (through = some after ∧ target = position + 1)

namespace Checks

variable {body : Body} {method : MethodContext} {marks : Label → Option VFrame} {base : Nat}
  {items : List Item} {entry : VFrame} {through : Option VFrame} {skip : Label}

/-- Where items that all let control through have been checked, control does come through. -/
theorem arrives_behind {position : Nat} {earlier later : List Item} {before frame : VFrame}
    (checks : Checks method marks (base + position) earlier (some before) (some frame))
    (there : body.items.drop position = earlier ++ later)
    (falls : ∀ item ∈ earlier, FlowGraph.fallsThrough item = true)
    (arrives : body.Arrives method base entry position before) :
    body.Arrives method base entry (position + earlier.length) frame := by
  induction earlier generalizing position before with
  | nil =>
    cases checks
    exact arrives
  | cons first earlier ih =>
    have found : body.items[position]? = some first := by
      rw [← List.head?_drop, there]
      rfl
    have behind : body.items.drop (position + 1) = earlier ++ later := by
      rw [← List.tail_drop, there]
      rfl
    have falling := falls first List.mem_cons_self
    have others : ∀ item ∈ earlier, FlowGraph.fallsThrough item = true :=
      fun item member => falls item (List.mem_cons_of_mem _ member)
    rw [List.length_cons, Nat.add_comm earlier.length, ← Nat.add_assoc]
    cases checks with
    | label marked same rest =>
      cases same before rfl
      exact ih rest behind others (arrives.step found rfl (.next found rfl))
    | item _ done _ rest =>
      rw [if_pos falling] at rest
      exact ih rest behind others (arrives.step found done (.next found falling))

theorem arrives_end {earlier later : List Item} {frame : VFrame}
    (checks : Checks method marks base earlier (some entry) (some frame))
    (split : body.items = earlier ++ later)
    (falls : ∀ item ∈ earlier, FlowGraph.fallsThrough item = true) :
    body.Arrives method base entry earlier.length frame := by
  rw [← Nat.zero_add earlier.length]
  exact arrives_behind checks split falls .entry

theorem item_cases (same : body.items = items ++ [.label skip]) {position : Nat} {item : Item}
    (found : body.items[position]? = some item) :
    items[position]? = some item ∨ (position = items.length ∧ item = .label skip) := by
  rw [same, List.getElem?_append] at found
  split at found
  · exact .inl found
  · obtain ⟨bound, here⟩ := List.getElem?_eq_some_iff.mp found
    have last : position - items.length = 0 := Nat.lt_one_iff.mp bound
    simp only [last, List.getElem_cons_zero] at here
    exact .inr ⟨by omega, here.symm⟩

/-- Before the label behind them, the items from where control gets to on are checked. -/
theorem fromAt (whole : Checks method marks base items (some entry) through)
    (same : body.items = items ++ [.label skip]) {position : Nat} {frame : VFrame}
    (arrives : body.Arrives method base entry position frame) {item : Item}
    (found : items[position]? = some item) :
    FromAt method marks base items through position frame := by
  have inside := (List.getElem?_eq_some_iff.mp found).1
  rcases FromAt.of_arrives whole same arrives with there | ⟨rfl, -⟩ | beyond
  · exact there
  · exact absurd inside (Nat.lt_irrefl _)
  · exact absurd inside (Nat.lt_asymm beyond)

/-- Where all items let control through, they are checked with one frame before each. -/
theorem frames (checks : Checks method marks base items (some entry) (some frame))
    (falls : ∀ item ∈ items, FlowGraph.fallsThrough item = true) :
    ∃ frames : Nat → VFrame, frames 0 = entry ∧ frames items.length = frame ∧
      ∀ {index : Nat} {item : Item}, items[index]? = some item →
        FlowGraph.after method (base + index) (frames index) item = .ok (frames (index + 1)) ∧
          ∀ jump label, item = .branch jump → label ∈ jump.targets →
            marks label = some (frames (index + 1)) := by
  induction items generalizing base entry with
  | nil =>
    cases checks
    exact ⟨fun _ => frame, rfl, rfl, fun found => nomatch found⟩
  | cons first items ih =>
    have others : ∀ item ∈ items, FlowGraph.fallsThrough item = true :=
      fun item member => falls item (List.mem_cons_of_mem _ member)
    obtain ⟨passed, done, jumps, rest⟩ : ∃ passed,
        FlowGraph.after method base entry first = .ok passed ∧
          (∀ jump label, first = .branch jump → label ∈ jump.targets → marks label = some passed) ∧
            Checks method marks (base + 1) items (some passed) (some frame) := by
      cases checks with
      | label marked same rest =>
        cases same _ rfl
        refine ⟨_, rfl, ?_, rest⟩
        rintro _ _ ⟨⟩
      | item _ done jumps rest =>
        rw [if_pos (falls first List.mem_cons_self)] at rest
        exact ⟨_, done, jumps, rest⟩
    obtain ⟨frames, starts, ends, steps⟩ := ih rest others
    let onward (index : Nat) : VFrame := Nat.casesOn index entry frames
    refine ⟨onward, rfl, ends, ?_⟩
    intro index item found
    cases index with
    | zero =>
      cases found
      subst starts
      exact ⟨done, jumps⟩
    | succ index =>
      have along : base + (index + 1) = base + 1 + index := by omega
      rw [along]
      exact steps found

/-- Items that are checked, with known frames at their labels, can be put into a method. -/
theorem embeds (whole : Checks method marks base items (some entry) through)
    (same : body.items = items ++ [.label skip]) (marked : marks skip = some entry)
    (once : .label skip ∉ items)
    (closed : ∀ jump, .branch jump ∈ items → (∃ kind, jump = .ret kind) ∨
      ∃ label, jump.targets = [label] ∧ .label label ∈ body.items) :
    body.Embeds method base entry skip through where
  done arrives found := by
    rcases item_cases same found with inside | ⟨-, rfl⟩
    · exact (whole.fromAt same arrives inside).done inside
    · exact ⟨_, rfl⟩
  agrees first second placed different := by
    rcases item_cases same placed with inside | ⟨-, last⟩
    · have frame := (whole.fromAt same first inside).marked inside
      exact Option.some.inj (frame.symm.trans ((whole.fromAt same second inside).marked inside))
    · exact absurd (Item.label.inj last) different
  placed {jump label} member target := by
    have inside : .branch jump ∈ items := by simpa [same] using member
    rcases closed jump inside with ⟨kind, rfl⟩ | ⟨only, targets, placed⟩
    · cases target
    · rw [targets, List.mem_singleton] at target
      exact List.mem_iff_getElem?.mp (target ▸ placed)
  ends {position item} found := by
    rcases item_cases same found with inside | ⟨-, last⟩
    · have before := (List.getElem?_eq_some_iff.mp inside).1
      have size : body.items.length = items.length + 1 := by simp [same]
      have stays (next : Nat) (leads : body.Successor position next) : next < body.items.length := by
        cases leads with
        | next => omega
        | jump _ _ placed => exact (List.getElem?_eq_some_iff.mp placed).1
      by_cases falls : FlowGraph.fallsThrough item = true
      · exact .inr (.inr ⟨⟨_, .next found falls⟩, stays⟩)
      · cases item with
        | branch jump =>
          rcases closed jump (List.mem_of_getElem? inside) with ⟨kind, rfl⟩ | ⟨label, targets, placed⟩
          · exact .inl ⟨kind, rfl⟩
          · obtain ⟨target, there⟩ := List.mem_iff_getElem?.mp placed
            have member : label ∈ jump.targets := by simp [targets]
            exact .inr (.inr ⟨⟨target, .jump found member there⟩, stays⟩)
        | label | line | instruction => exact absurd rfl falls
    · exact .inr (.inl last)
  lands {position target frame after item} arrives found done leads landing := by
    have ending : target = items.length := by
      rcases item_cases same landing with inside | ⟨last, -⟩
      · exact absurd (List.mem_of_getElem? inside) once
      · exact last
    rcases item_cases same found with inside | ⟨beyond, last⟩
    · have there := whole.fromAt same arrives inside
      cases leads with
      | next expected falls =>
        cases Option.some.inj (expected.symm.trans found)
        exact .inr ⟨FromAt.ending (ending ▸ there.next inside done falls), rfl⟩
      | @jump jump label _ expected member placed =>
        cases Option.some.inj (expected.symm.trans found)
        cases Option.some.inj (placed.symm.trans landing)
        have passed := there.jumps inside member done
        exact .inl ⟨Option.some.inj (passed.symm.trans marked), jump, rfl, member⟩
    · subst last
      cases leads with
      | next => omega
      | jump expected => cases expected.symm.trans found

end Checks

end ClassWeave
