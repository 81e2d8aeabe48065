import ClassWeave.Hook.Weaving
import ClassWeave.Proofs.Code.Labelling
import ClassWeave.Proofs.Hook.Detour

/-!
# Hooks are invisible to other objects

Runs of a hooked body in which no object passes the test are the runs of the original, with a detour
wherever they come upon the hook.
-/

namespace ClassWeave

variable {ρ η : Type}

/-- A run goes on for as long as there are steps from each visit to the next one. -/
theorem Body.Runs.extend {body : Body} {runtime : Runtime ρ η} {store : Store ρ η}
    {run rest : List (Visit ρ η)} {here : Visit ρ η}
    (runs : body.Runs runtime store (run ++ [here]))
    (chain : (here :: rest).IsChain fun here next => body.Step runtime here.state next) :
    body.Runs runtime store (run ++ here :: rest) := by
  induction rest generalizing run here with
  | nil => exact runs
  | cons next rest ih =>
    obtain ⟨step, chain⟩ := List.isChain_cons_cons.mp chain
    have further := ih (runs.step step) chain
    rwa [List.append_assoc] at further

namespace HookSpot

variable {spot : HookSpot} {body hooked : Body} {runtime : Runtime ρ η} {store : Store ρ η}
  {run : List (Visit ρ η)}

theorem weave_concat (earlier : List (Visit ρ η)) (last : Visit ρ η) :
    spot.weave runtime (earlier ++ [last]) =
      spot.weave runtime earlier ++ spot.visits runtime last := by
  simp [weave]

theorem visits_eq_cons (spot : HookSpot) (runtime : Runtime ρ η) (visit : Visit ρ η) :
    ∃ rest, spot.visits runtime visit = spot.entered visit :: rest := by
  rw [visits, entered]
  split
  · exact ⟨_, rfl⟩
  · exact ⟨_, rfl⟩

/-- Where the object is tested on a detour, the answer is no. -/
theorem weave_isChain (spot : HookSpot) (runtime : Runtime ρ η) (run : List (Visit ρ η)) :
    (spot.weave runtime run).IsChain spot.Denies := by
  have wide := spot.width_eq
  have behind (visit : Visit ρ η) (next : Visit ρ η) : spot.Denies (spot.moved visit) next := by
    intro tested
    simp only [moved, Body.shift] at tested
    split at tested <;> omega
  induction run with
  | nil => exact .nil
  | cons visit run ih =>
    refine List.IsChain.append ?_ ih fun last isLast next _ => ?_
    · by_cases crossed : spot.IsCrossed visit
      · rw [visits, if_pos crossed]
        refine .cons_cons ?_ (.cons_cons ?_ (.cons_cons ?_ (.cons_cons (fun _ => ⟨rfl, rfl⟩)
          (.cons_cons ?_ (.cons_cons ?_ (.singleton _))))))
        all_goals
          intro tested
          simp only at tested
          omega
      · rw [visits, if_neg crossed]
        exact .singleton _
    · rw [visits, List.getLast?_concat] at isLast
      cases isLast
      exact behind visit next

/-- A run of either body starts in the same way. -/
theorem entered_start (spot : HookSpot) (store : Store ρ η) :
    spot.entered ⟨.onward, 0, store⟩ = ⟨.onward, 0, store⟩ := by
  rw [entered]
  split
  · rename_i crossed
    rw [← crossed.2]
  · rename_i uncrossed
    have ahead : 0 < spot.position := Nat.pos_of_ne_zero fun zero => uncrossed ⟨rfl, zero.symm⟩
    rw [moved, Body.shift, if_pos ahead]

namespace Fits

theorem visits_steps (fits : spot.Fits body hooked)
    (own : spot.call.fields.classField.owner = runtime.thisClass) {visit : Visit ρ η}
    (spared : spot.Spares runtime visit) :
    (spot.visits runtime visit).IsChain fun here next => hooked.Step runtime here.state next :=
  (fits.visits_isChain own visit).imp fun _ _ leads => leads.1 spared

/-- Every run of the original has one of the hooked body that goes with it. -/
theorem weave_runs (fits : spot.Fits body hooked)
    (own : spot.call.fields.classField.owner = runtime.thisClass)
    (runs : body.Runs runtime store run) (spared : ∀ visit ∈ run, spot.Spares runtime visit) :
    hooked.Runs runtime store (spot.weave runtime run) := by
  induction runs with
  | enter =>
    obtain ⟨rest, split⟩ := visits_eq_cons spot runtime ⟨.onward, 0, store⟩
    have chain := fits.visits_steps own (spared _ (List.mem_singleton_self _))
    rw [split, entered_start] at chain
    have start : hooked.Runs runtime store ([] ++ [⟨.onward, 0, store⟩]) := .enter
    rw [weave, List.flatMap_singleton, split, entered_start]
    exact start.extend chain
  | @step visits last next earlier step ih =>
    have before := ih fun visit member => spared visit (List.mem_append_left _ member)
    obtain ⟨rest, split⟩ := visits_eq_cons spot runtime next
    have chain := fits.visits_steps own
      (spared next (List.mem_append_right _ (List.mem_singleton_self _)))
    rw [weave_concat, split]
    rw [split] at chain
    refine Body.Runs.extend ?_ chain
    rw [weave_concat, HookSpot.visits, ← List.append_assoc] at before ⊢
    exact before.step (fits.step_iff.mpr ⟨next, step, rfl⟩)

/-- Every run of the hooked body in which no object passes the test goes with one of the original,
up to a detour that it may still be on. -/
theorem unweave_runs (fits : spot.Fits body hooked)
    (own : spot.call.fields.classField.owner = runtime.thisClass)
    (runs : hooked.Runs runtime store run) (denied : run.IsChain spot.Denies) :
    ∃ earlier last part, body.Runs runtime store (earlier ++ [last]) ∧
      run = spot.weave runtime earlier ++ part ∧ part ≠ [] ∧ part <+: spot.visits runtime last := by
  induction runs with
  | enter =>
    obtain ⟨rest, split⟩ := visits_eq_cons spot runtime ⟨.onward, 0, store⟩
    refine ⟨[], ⟨.onward, 0, store⟩, [⟨.onward, 0, store⟩], .enter, rfl, List.cons_ne_nil _ _, ?_⟩
    rw [split, entered_start]
    exact ⟨rest, rfl⟩
  | @step visits here next _ step ih =>
    obtain ⟨earlier, last, part, runs, same, nonempty, rest, complete⟩ := ih denied.left_of_append
    obtain ⟨front, final, rfl⟩ : ∃ front final, part = front ++ [final] :=
      ⟨part.dropLast, part.getLast nonempty, (List.dropLast_append_getLast nonempty).symm⟩
    rw [← List.append_assoc] at same
    obtain ⟨-, atEnd⟩ := List.append_inj' same rfl
    cases atEnd
    have no : spot.Denies here next := by
      rw [List.append_assoc] at denied
      exact (List.isChain_append_cons_cons.mp denied).2.1
    cases rest with
    | nil =>
      rw [List.append_nil, HookSpot.visits] at complete
      obtain ⟨-, isMoved⟩ := List.append_inj' complete rfl
      cases isMoved
      obtain ⟨visit, origin, rfl⟩ := fits.step_iff.mp step
      obtain ⟨rest, split⟩ := visits_eq_cons spot runtime visit
      refine ⟨earlier ++ [last], visit, [spot.entered visit], runs.step origin, ?_,
        List.cons_ne_nil _ _, ?_⟩
      · rw [weave_concat, same, HookSpot.visits, ← complete]
        simp
      · rw [split]
        exact ⟨rest, rfl⟩
    | cons there rest =>
      have chain := fits.visits_isChain own last
      rw [← complete, List.append_assoc] at chain
      obtain ⟨-, only⟩ := (List.isChain_append_cons_cons.mp chain).2.1
      cases only next step no
      refine ⟨earlier, last, front ++ [here] ++ [next], runs, ?_, by simp, rest, ?_⟩
      · rw [same]
        simp
      · rw [← complete]
        simp

end Fits

/-- Runs in which no object passes the test are the same but for detours, and end in the same way. -/
structure Invisible (spot : HookSpot) (runtime : Runtime ρ η) (body hooked : Body) : Prop where
  /-- On a detour, the object is tested and the label behind the hook is passed. -/
  tested (store : Store ρ η) :
    (spot.detour runtime store).map (fun visit => hooked.items[visit.state.position]?) =
      (HookSite.test spot.call spot.slot spot.skip ++ [Item.label spot.skip]).map some
  /-- A run of the hooked body goes with one of the original, up to a detour that it is on. -/
  original {store : Store ρ η} {run : List (Visit ρ η)} : hooked.Runs runtime store run →
    run.IsChain spot.Denies → ∃ earlier last part, body.Runs runtime store (earlier ++ [last]) ∧
      run = spot.weave runtime earlier ++ part ∧ part ≠ [] ∧ part <+: spot.visits runtime last
  /-- A run of the original goes with one of the hooked body. -/
  woven {store : Store ρ η} {run : List (Visit ρ η)} : body.Runs runtime store run →
    (∀ visit ∈ run, spot.Spares runtime visit) →
      hooked.Runs runtime store (spot.weave runtime run) ∧
        (spot.weave runtime run).IsChain spot.Denies
  /-- The hooked body leaves the method, or is stuck, exactly where the original is. -/
  ends {position : Nat} {store : Store ρ η} :
    (∃ next, hooked.Step runtime ⟨Body.shift spot.position spot.width position, store⟩ next) ↔
      ∃ next, body.Step runtime ⟨position, store⟩ next

theorem Fits.invisible (fits : spot.Fits body hooked)
    (own : spot.call.fields.classField.owner = runtime.thisClass) :
    spot.Invisible runtime body hooked where
  tested store := by
    have landing : hooked.items[spot.position + spot.width - 1]? = some (.label spot.skip) :=
      (fits.labelAt_skip _).mpr rfl
    have load : hooked.items[spot.position]? = some (.instruction (.load .reference spot.slot)) :=
      fits.item_inside 0 rfl
    simp only [detour, List.map_cons, List.map_nil, load, landing, fits.item_inside 1 rfl,
      fits.item_inside 2 rfl, fits.item_inside 3 rfl, fits.item_inside 4 rfl]
    rfl
  original := fits.unweave_runs own
  woven runs spared := ⟨fits.weave_runs own runs spared, spot.weave_isChain runtime _⟩
  ends := by
    intro position store
    constructor
    · intro ⟨next, leads⟩
      obtain ⟨visit, step, -⟩ := fits.step_iff.mp leads
      exact ⟨visit, step⟩
    · intro ⟨visit, step⟩
      exact ⟨spot.entered visit, fits.step_iff.mpr ⟨visit, step, rfl⟩⟩

end HookSpot

namespace HookPlan

/-- The hook of a plan at a place in a body. -/
def spot (plan : HookPlan) (body : Body) (position : Nat) (slot : UInt16) : HookSpot where
  call := plan.call
  position := position
  slot := slot
  skip := body.nextLabel
  answer := HookSite.consult plan.call plan.target slot body.nextLabel

variable {plan : HookPlan} {body hooked : Body} {runtime : Runtime ρ η}

/-- With labels that are free, what is put into a body is a hook in its place. -/
theorem spot_fits (fresh : body.LabelsBelow) {position : Nat} {slot : UInt16}
    (within : position ≤ body.items.length) :
    (plan.spot body position slot).Fits body (body.splice position
      (HookSite.items plan.call plan.target slot body.nextLabel)
      (HookSite.nextLabel plan.target.shape body.nextLabel)) := by
  refine ⟨within, ⟨HookSite.nextLabel plan.target.shape body.nextLabel, ?_⟩,
    fun label known placed => ?_, fun placed => ?_⟩
  · rw [HookSite.items_eq]
    rfl
  · have below := fresh label known
    rcases List.mem_append.mp placed with front | last
    · rcases List.mem_append.mp front with tested | answered
      · simp [HookSite.test, HookSite.step, HookCall.guard] at tested
      · exact Nat.lt_asymm below (HookSite.lt_of_mem_consult answered)
    · cases List.mem_singleton.mp last
      exact Nat.lt_irrefl _ below
  · exact Nat.lt_irrefl _ (HookSite.lt_of_mem_consult placed)

theorem hooked_fits (fresh : body.LabelsBelow) (found : plan.hooked? body = some hooked) :
    ∃ position slot, (plan.spot body position slot).Fits body hooked := by
  obtain ⟨position, slot, within, rfl⟩ := hooked_splice found
  exact ⟨position, slot, spot_fits fresh within⟩

/-- A hook does not change what a method does with objects that do not implement the interface. -/
theorem hooked_invisible (fresh : body.LabelsBelow)
    (own : plan.call.fields.classField.owner = runtime.thisClass)
    (found : plan.hooked? body = some hooked) :
    ∃ position slot, (plan.spot body position slot).Fits body hooked ∧
      (plan.spot body position slot).Invisible runtime body hooked := by
  obtain ⟨position, slot, fits⟩ := hooked_fits fresh found
  exact ⟨position, slot, fits, fits.invisible own⟩

end HookPlan

theorem HookFields.of_owner {thisClass : BinaryName} {interface : InterfaceMethod}
    {fields : HookFields} (made : HookFields.of thisClass interface = .ok fields) :
    fields.classField.owner = thisClass := by
  obtain ⟨_, -, made⟩ := Outcome.bind_ok.mp made
  obtain ⟨_, -, made⟩ := Outcome.bind_ok.mp made
  cases Outcome.pure_ok.mp made
  rfl

/-- Weaving decodes the methods that it hooks, and the fields of its hooks are in the class, so its
hooks are invisible. -/
theorem Weaving.editedBody_invisible {weaving : Weaving} {fields : HookFields} {target : Target}
    {code : CodeAttribute} {constants : ConstantTable} {body hooked : Body}
    {name : UnqualifiedName} {runtime : Runtime ρ η}
    (made : HookFields.of weaving.thisClass weaving.spec.interface = .ok fields)
    (calls : weaving.call = .of fields weaving.spec.interface)
    (own : runtime.thisClass = weaving.thisClass)
    (decoded : Body.ofCode code constants = .ok body)
    (edited : weaving.editedBody (.hook target) body = .ok (some (name, hooked))) :
    ∃ position slot, (HookPlan.spot ⟨weaving.call, target⟩ body position slot).Invisible runtime
      body hooked := by
  obtain ⟨_, -, found⟩ := Outcome.bind_ok.mp edited
  obtain ⟨same, found, isHooked⟩ := Option.map_eq_some_iff.mp (Outcome.pure_ok.mp found)
  cases isHooked
  obtain ⟨position, slot, fits⟩ :=
    HookPlan.hooked_fits (Body.ofCode_wellLabelled decoded).labelsBelow found
  refine ⟨position, slot, fits.invisible ?_⟩
  rw [HookPlan.spot, own, calls]
  exact HookFields.of_owner made

/-- Asks for the current thread over and over. -/
def polling : Body where
  items := [.label ⟨0⟩,
    .instruction (.invoke .static
      (.ofClass .thread .currentThread [] (some (.object .thread)))),
    .instruction (.store .reference 0), .branch (.goto ⟨0⟩)]
  handlers := []
  localVariables := []
  nextLabel := ⟨1⟩

def pollingPlan : HookPlan where
  call := ⟨⟨⟨.thread, .typeField, .object .classObject⟩,
    ⟨.thread, .invoke, .object .reflectMethod⟩⟩, [], some (.reference (.object .thread))⟩
  target := ⟨.getInstance, ⟨[], none⟩,
    .callResult ⟨.thread, .currentThread, ⟨[], some (.object .thread)⟩⟩, []⟩

/-- There are two objects: the class object of the interface, and the only thread. -/
def pollingRuntime : Runtime Nat Unit where
  thisClass := .thread
  static _ _ := .reference (some 0)
  isInstance _ _ _ answer := answer = false
  isCaught _ _ _ := false
  completes _ before stack _ := stack = .reference (some 1) :: before.stack
  throws _ _ _ _ := False

def polled : Body :=
  polling.splice 3 (HookSite.items pollingPlan.call pollingPlan.target 0 ⟨1⟩) ⟨2⟩

theorem polling_labelsBelow : polling.LabelsBelow := by
  intro label mentions
  have zero : label = ⟨0⟩ := by
    simpa [polling, Body.Mentions, Branch.targets] using mentions
  rw [zero]
  decide

theorem polling_hooked : pollingPlan.hooked? polling = some polled := by
  rfl

theorem polled_invisible : polling.LabelsBelow ∧
    pollingPlan.call.fields.classField.owner = pollingRuntime.thisClass ∧
    pollingPlan.hooked? polling = some polled ∧
    ∃ position slot, (pollingPlan.spot polling position slot).Fits polling polled ∧
      (pollingPlan.spot polling position slot).Invisible pollingRuntime polling polled :=
  ⟨polling_labelsBelow, rfl, polling_hooked,
    HookPlan.hooked_invisible polling_labelsBelow rfl polling_hooked⟩

end ClassWeave
