import Mathlib.Data.List.Chain
import ClassWeave.Proofs.Execution.Machine
import ClassWeave.Proofs.Hook.Splice

/-!
# The way around a hook

What a run does at a hook if the object there does not implement the interface: it tests the object
and goes on behind the hook, with nothing changed. Everywhere else, a run of the hooked body does
what a run of the original does.
-/

namespace ClassWeave

namespace HookSite

/-- The items that test the object in a local, and lead on to `skip` unless it passes. -/
def test (call : HookCall) (slot : UInt16) (skip : Label) : List Item :=
  step (.load .reference slot) :: call.guard skip

/-- The items that call the interface, and use its answer. -/
def consult (call : HookCall) (target : Target) (slot : UInt16) (fresh : Label) : List Item :=
  [step (.load .reference slot)]
    ++ (call.parameters.zip target.argumentSlots).map
      (fun (argument, argumentSlot) => step (loadArgument argument argumentSlot))
    ++ call.items ++ useAnswer target slot fresh.next

theorem items_eq (call : HookCall) (target : Target) (slot : UInt16) (fresh : Label) :
    items call target slot fresh =
      test call slot fresh ++ consult call target slot fresh ++ [.label fresh] := by
  simp [items, test, consult, HookCall.landing]

/-- The labels that are placed before the last one come after it. -/
theorem lt_of_mem_consult {call : HookCall} {target : Target} {slot : UInt16} {fresh label : Label}
    (placed : .label label ∈ consult call target slot fresh) : fresh.index < label.index := by
  have among : label = fresh.next ∨ label = fresh.next.next := by
    simp only [consult, step, HookCall.items, List.mem_append, List.mem_singleton, List.mem_map,
      reduceCtorEq, and_false, exists_false, false_or] at placed
    cases shape : target.shape with
    | entry | callBranch | callResult | cache =>
      simp [useAnswer, shape, returnCached, step] at placed
    | entrySelect | aggregate =>
      simpa [useAnswer, shape, returnSelected, returnJoined, step] using placed
  rcases among with rfl | rfl
  · exact Nat.lt_succ_self _
  · exact Nat.lt_succ_of_lt (Nat.lt_succ_self _)

end HookSite

/-- A hook at its place in a body. -/
structure HookSpot where
  call : HookCall
  position : Nat
  slot : UInt16
  /-- The label behind the hook. -/
  skip : Label
  /-- What is done for objects that implement the interface. -/
  answer : List Item

namespace HookSpot

variable {ρ η : Type}

def items (spot : HookSpot) : List Item :=
  HookSite.test spot.call spot.slot spot.skip ++ spot.answer ++ [.label spot.skip]

def width (spot : HookSpot) : Nat := spot.items.length

theorem width_eq (spot : HookSpot) : spot.width = spot.answer.length + 6 := by
  simp only [width, items, HookSite.test, HookCall.guard, List.length_append, List.length_cons,
    List.length_nil]
  omega

/-- Control comes upon the hook only if it goes on to its position, not if it leaps there. -/
def IsCrossed (spot : HookSpot) (visit : Visit ρ η) : Prop :=
  visit.passage = .onward ∧ visit.state.position = spot.position

instance (spot : HookSpot) (visit : Visit ρ η) : Decidable (spot.IsCrossed visit) :=
  inferInstanceAs (Decidable (_ ∧ _))

/-- The visits of a hook that does not find an object of the interface. -/
def detour (spot : HookSpot) (runtime : Runtime ρ η) (store : Store ρ η) : List (Visit ρ η) :=
  let object := store.locals spot.slot
  let type := runtime.static store.heap spot.call.fields.classField
  [⟨.onward, spot.position, store⟩,
    ⟨.onward, spot.position + 1, store.push object⟩,
    ⟨.onward, spot.position + 2, (store.push object).push type⟩,
    ⟨.onward, spot.position + 3, (store.push type).push object⟩,
    ⟨.onward, spot.position + 4, store.push (.ofBool false)⟩,
    ⟨.leap, spot.position + spot.width - 1, store⟩]

/-- The same visit where the item has gone. -/
def moved (spot : HookSpot) (visit : Visit ρ η) : Visit ρ η :=
  ⟨visit.passage, Body.shift spot.position spot.width visit.state.position, visit.state.store⟩

/-- The first visit of a hooked body for one of the original. -/
def entered (spot : HookSpot) (visit : Visit ρ η) : Visit ρ η :=
  if spot.IsCrossed visit then ⟨.onward, spot.position, visit.state.store⟩ else spot.moved visit

/-- The visits of a hooked body for one of the original. -/
def visits (spot : HookSpot) (runtime : Runtime ρ η) (visit : Visit ρ η) : List (Visit ρ η) :=
  (if spot.IsCrossed visit then spot.detour runtime visit.state.store else []) ++ [spot.moved visit]

/-- A run with a detour wherever it comes upon the hook. -/
def weave (spot : HookSpot) (runtime : Runtime ρ η) (run : List (Visit ρ η)) : List (Visit ρ η) :=
  run.flatMap (spot.visits runtime)

/-- If a visit is to the test of the hook, the next one has an answer, which is no. -/
def Denies (spot : HookSpot) (here next : Visit ρ η) : Prop :=
  here.state.position = spot.position + 3 →
    next.passage = .onward ∧ next.state.store.stack.head? = some (.ofBool false)

/-- If control comes upon the hook with a visit, the object may fail the test. -/
def Spares (spot : HookSpot) (runtime : Runtime ρ η) (visit : Visit ρ η) : Prop :=
  spot.IsCrossed visit → runtime.isInstance visit.state.store.heap
    (runtime.static visit.state.store.heap spot.call.fields.classField)
    (visit.state.store.locals spot.slot) false

/-- The hooked body is the other with the hook in it, whose labels are new. -/
structure Fits (spot : HookSpot) (body hooked : Body) : Prop where
  within : spot.position ≤ body.items.length
  spliced : ∃ nextLabel, hooked = body.splice spot.position spot.items nextLabel
  fresh : ∀ label, body.Mentions label → .label label ∉ spot.items
  once : .label spot.skip ∉ spot.answer

theorem entered_onward (spot : HookSpot) (position : Nat) (store : Store ρ η) :
    spot.entered ⟨.onward, position + 1, store⟩ =
      ⟨.onward, Body.shift spot.position spot.width position + 1, store⟩ := by
  rw [entered, Body.shift_next]
  by_cases here : position + 1 = spot.position
  · rw [if_pos ⟨rfl, here⟩, if_pos here]
  · rw [if_neg fun crossed => here crossed.2, if_neg here]
    rfl

theorem entered_leap (spot : HookSpot) (position : Nat) (store : Store ρ η) :
    spot.entered ⟨.leap, position, store⟩ =
      ⟨.leap, Body.shift spot.position spot.width position, store⟩ :=
  if_neg fun crossed => by cases crossed.1

namespace Fits

variable {spot : HookSpot} {body hooked : Body} {runtime : Runtime ρ η}

theorem item_shift (fits : spot.Fits body hooked) (position : Nat) :
    hooked.items[Body.shift spot.position spot.width position]? = body.items[position]? := by
  obtain ⟨nextLabel, rfl⟩ := fits.spliced
  exact Body.splice_shift fits.within position

theorem labelAt_shift (fits : spot.Fits body hooked) {label : Label} {position : Nat} :
    hooked.LabelAt label (Body.shift spot.position spot.width position) ↔
      body.LabelAt label position := by
  rw [Body.LabelAt, Body.LabelAt, fits.item_shift]

/-- Labels of the original lead to where they led before. -/
theorem labelAt_iff (fits : spot.Fits body hooked) {label : Label} (known : body.Mentions label)
    {place : Nat} : hooked.LabelAt label place ↔
      ∃ origin, Body.shift spot.position spot.width origin = place ∧ body.LabelAt label origin := by
  obtain ⟨nextLabel, rfl⟩ := fits.spliced
  exact Body.splice_labelAt fits.within (fits.fresh label known)

theorem handlers_eq (fits : spot.Fits body hooked) : hooked.handlers = body.handlers := by
  obtain ⟨nextLabel, rfl⟩ := fits.spliced
  rfl

theorem mentions_handler {handler : Handler} (member : handler ∈ body.handlers) {label : Label}
    (used : label ∈ [handler.start, handler.stop, handler.target]) : body.Mentions label :=
  .inr (.inr (.inl ⟨handler, member, used⟩))

theorem protects_iff (fits : spot.Fits body hooked) {handler : Handler}
    (member : handler ∈ body.handlers) {position : Nat} :
    hooked.Protects handler (Body.shift spot.position spot.width position) ↔
      body.Protects handler position := by
  obtain ⟨nextLabel, rfl⟩ := fits.spliced
  exact Body.splice_protects fits.within
    (fits.fresh _ (mentions_handler member (by simp)))
    (fits.fresh _ (mentions_handler member (by simp)))

/-- Exceptions go to the handlers they went to before. -/
theorem catches_iff (fits : spot.Fits body hooked) {position : Nat} {exception : ρ} {heap : η}
    {handler : Handler} :
    hooked.Catches runtime (Body.shift spot.position spot.width position) exception heap handler ↔
      body.Catches runtime position exception heap handler := by
  simp only [Body.Catches, fits.handlers_eq]
  refine exists_congr fun earlier => exists_congr fun later => and_congr_right fun split => ?_
  have protects {other : Handler} (member : other ∈ earlier ++ handler :: later) :
      hooked.Protects other (Body.shift spot.position spot.width position) ↔
        body.Protects other position := fits.protects_iff (split ▸ member)
  rw [protects (by simp)]
  refine and_congr_right fun _ => forall₂_congr fun other member => ?_
  rw [protects (List.mem_append_left _ member)]

/-- An item of the original leads on as it did before, or to the hook. -/
theorem step_iff (fits : spot.Fits body hooked) {position : Nat} {store : Store ρ η}
    {next : Visit ρ η} :
    hooked.Step runtime ⟨Body.shift spot.position spot.width position, store⟩ next ↔
      ∃ visit, body.Step runtime ⟨position, store⟩ visit ∧ spot.entered visit = next := by
  constructor
  · intro step
    cases step with
    | mark found mark =>
      rw [fits.item_shift] at found
      exact ⟨_, .mark found mark, spot.entered_onward _ _⟩
    | instruction found done =>
      rw [fits.item_shift] at found
      exact ⟨_, .instruction found done, spot.entered_onward _ _⟩
    | pass found goes =>
      rw [fits.item_shift] at found
      exact ⟨_, .pass found goes, spot.entered_onward _ _⟩
    | jump found goes placed =>
      rw [fits.item_shift] at found
      have known : body.Mentions _ :=
        .inr (.inl ⟨_, List.mem_of_getElem? found, goes.mem_targets⟩)
      obtain ⟨target, rfl, origin⟩ := (fits.labelAt_iff known).mp placed
      exact ⟨_, .jump found goes origin, spot.entered_leap _ _⟩
    | exception found thrown caught placed =>
      rw [fits.item_shift] at found
      rw [fits.catches_iff] at caught
      obtain ⟨_, _, -, ⟨protects, -⟩, -⟩ := id caught
      obtain ⟨target, rfl, origin⟩ :=
        (fits.labelAt_iff (mentions_handler protects.member (by simp))).mp placed
      exact ⟨_, .exception found thrown caught origin, spot.entered_leap _ _⟩
  · rintro ⟨visit, step, rfl⟩
    cases step with
    | mark found mark =>
      rw [← fits.item_shift] at found
      rw [entered_onward]
      exact .mark found mark
    | instruction found done =>
      rw [← fits.item_shift] at found
      rw [entered_onward]
      exact .instruction found done
    | pass found goes =>
      rw [← fits.item_shift] at found
      rw [entered_onward]
      exact .pass found goes
    | jump found goes placed =>
      rw [← fits.item_shift] at found
      rw [entered_leap]
      exact .jump found goes (fits.labelAt_shift.mpr placed)
    | exception found thrown caught placed =>
      rw [← fits.item_shift] at found
      rw [entered_leap]
      exact .exception found thrown (fits.catches_iff.mpr caught) (fits.labelAt_shift.mpr placed)

theorem item_inside (fits : spot.Fits body hooked) (index : Nat) {item : Item}
    (found : spot.items[index]? = some item) :
    hooked.items[spot.position + index]? = some item := by
  obtain ⟨nextLabel, rfl⟩ := fits.spliced
  exact Body.splice_hasAt fits.within index item found

/-- The label behind the hook is only there. -/
theorem labelAt_skip (fits : spot.Fits body hooked) (place : Nat) :
    hooked.LabelAt spot.skip place ↔ place = spot.position + spot.width - 1 := by
  have front : spot.width = (HookSite.test spot.call spot.slot spot.skip ++ spot.answer).length + 1 :=
    List.length_append
  have last : spot.items[spot.width - 1]? = some (.label spot.skip) := by
    rw [front, Nat.add_sub_cancel, items, List.getElem?_append_right (Nat.le_refl _), Nat.sub_self]
    rfl
  constructor
  · intro placed
    rcases Body.shift_or_inside spot.position spot.width place with ⟨origin, rfl⟩ | ⟨index, inside, rfl⟩
    · have known : body.Mentions spot.skip :=
        .inl (List.mem_of_getElem? (fits.labelAt_shift.mp placed))
      exact (fits.fresh _ known (List.mem_of_getElem? last)).elim
    · obtain ⟨nextLabel, rfl⟩ := fits.spliced
      rw [Body.LabelAt, Body.splice_inside fits.within inside] at placed
      by_cases before : index < spot.width - 1
      · rw [items, List.getElem?_append_left (by omega)] at placed
        rcases List.mem_append.mp (List.mem_of_getElem? placed) with tested | answered
        · simp [HookSite.test, HookSite.step, HookCall.guard] at tested
        · exact (fits.once answered).elim
      · omega
  · rintro rfl
    rw [Nat.add_sub_assoc (front ▸ Nat.succ_pos _)]
    exact fits.item_inside _ last

/-- From each visit at the hook control can get to the next one, and to no other one if the answer of
the test is no. -/
theorem visits_isChain (fits : spot.Fits body hooked)
    (own : spot.call.fields.classField.owner = runtime.thisClass) (visit : Visit ρ η) :
    (spot.visits runtime visit).IsChain fun here there =>
      (spot.Spares runtime visit → hooked.Step runtime here.state there) ∧
      ∀ next, hooked.Step runtime here.state next → spot.Denies here next → next = there := by
  by_cases crossed : spot.IsCrossed visit
  · have behind : spot.moved visit =
        ⟨.onward, spot.position + spot.width, visit.state.store⟩ := by
      rw [moved, crossed.1, crossed.2, Body.shift, if_neg (Nat.lt_irrefl _)]
    have only {here there : Visit ρ η}
        (leads : ∀ next, hooked.Step runtime here.state next ↔ next = there) :
        (spot.Spares runtime visit → hooked.Step runtime here.state there) ∧
        ∀ next, hooked.Step runtime here.state next → spot.Denies here next → next = there :=
      ⟨fun _ => (leads there).mpr rfl, fun next step _ => (leads next).mp step⟩
    rw [visits, if_pos crossed, behind]
    refine .cons_cons (only fun next => ?load) (.cons_cons (only fun next => ?getStatic)
      (.cons_cons (only fun next => ?swap) (.cons_cons ⟨fun spares => ?asked, ?answered⟩
        (.cons_cons (only fun next => ?jump) (.cons_cons (only fun next => ?land) (.singleton _))))))
    case load =>
      have loads : hooked.items[spot.position]? =
        some (.instruction (.load .reference spot.slot)) := fits.item_inside 0 rfl
      exact Body.step_instruction_iff loads rfl fun _ => Iff.rfl
    case getStatic =>
      refine Body.step_instruction_iff (fits.item_inside 1 rfl) ?_ fun other => ?_
      · simp [Runtime.knows, own]
      · simp [Runtime.Completes, own]
    case swap =>
      refine Body.step_instruction_iff (fits.item_inside 2 rfl) rfl fun other => ?_
      simp [Runtime.Completes, Store.push]
    case asked =>
      exact .instruction (fits.item_inside 3 rfl) ⟨_, _, _, false, rfl, spares crossed, rfl⟩
    case answered =>
      intro next step denies
      obtain ⟨onward, no⟩ := denies rfl
      rcases Body.step_instruction_cases (fits.item_inside 3 rfl) step with
        ⟨after, ⟨object, type, rest, answer, same, -, rfl⟩, rfl⟩ | ⟨leap, -⟩
      · cases same
        rw [Value.ofBool_inj.mp (Option.some.inj no)]
        rfl
      · rw [onward] at leap
        cases leap
    case jump =>
      exact Body.step_taken_iff (fits.item_inside 4 rfl) (fun _ _ => Test.decides_ofBool)
        fits.labelAt_skip
    case land =>
      have landing := (fits.labelAt_skip _).mpr rfl
      have past : spot.position + spot.width - 1 + 1 = spot.position + spot.width := by
        rw [spot.width_eq]
        rfl
      rw [← past]
      exact Body.step_mark_iff landing rfl
  · rw [visits, if_neg crossed]
    exact .singleton _

end Fits

end HookSpot

end ClassWeave
