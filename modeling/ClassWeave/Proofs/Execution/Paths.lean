import ClassWeave.Proofs.Execution.Machine

/-!
# Ways through a body

Control gets to an item from the one before it, or leaps to a label that something leads to. So items
without such labels are run one after the other, or not at all.
-/

namespace ClassWeave

variable {ρ η : Type}

/-- The local that an item changes. -/
def Item.writtenSlot? : Item → Option UInt16
  | .instruction (.store _ slot) | .instruction (.increment slot _) => some slot
  | _ => none

/-- An instruction changes no local but the one that it writes. -/
theorem Runtime.Completes.locals_eq {runtime : Runtime ρ η} {step : SymInstruction}
    {before after : Store ρ η} (done : runtime.Completes step before after) {slot : UInt16}
    (other : (Item.instruction step).writtenSlot? ≠ some slot) :
    after.locals slot = before.locals slot := by
  unfold Completes at done
  split at done
  case h_1 => rw [done, Store.locals_push]
  case h_2 written =>
    obtain ⟨value, rest, -, rfl⟩ := done
    exact Function.update_of_ne (fun same => other (congrArg some same.symm)) ..
  case h_3 written _ =>
    obtain ⟨number, -, rfl⟩ := done
    exact Function.update_of_ne (fun same => other (congrArg some same.symm)) ..
  case h_4 =>
    obtain ⟨_, _, _, -, rfl⟩ := done
    rfl
  case h_5 =>
    split at done
    · rw [done, Store.locals_push]
    · exact congrFun done.2 slot
  case h_6 =>
    split at done
    · obtain ⟨_, _, _, _, -, -, rfl⟩ := done
      rfl
    · exact congrFun done.2 slot
  case h_7 => exact congrFun done.2 slot

namespace Body

variable {body : Body} {runtime : Runtime ρ η} {store : Store ρ η}

/-- Does a branch or a handler lead to the label? -/
def IsTarget (body : Body) (label : Label) : Prop :=
  (∃ jump, .branch jump ∈ body.items ∧ label ∈ jump.targets) ∨
    ∃ handler ∈ body.handlers, handler.target = label

/-- Can control leap to the item at a position? -/
def IsLanding (body : Body) (position : Nat) : Prop :=
  ∃ label, body.IsTarget label ∧ body.LabelAt label position

theorem not_isLanding {position : Nat} {item : Item} (found : body.items[position]? = some item)
    (other : ∀ label, body.IsTarget label → item ≠ .label label) : ¬ body.IsLanding position := by
  rintro ⟨label, isTarget, placed⟩
  exact other label isTarget (Option.some.inj (found.symm.trans placed))

/-- Control goes on to the next item, or leaps. -/
theorem Step.onward_or_lands {state : MachineState ρ η} {next : Visit ρ η}
    (step : body.Step runtime state next) :
    next.passage = .onward ∧ next.state.position = state.position + 1 ∨
      next.passage = .leap ∧ body.IsLanding next.state.position := by
  cases step with
  | mark | instruction | pass => exact .inl ⟨rfl, rfl⟩
  | jump found goes placed =>
    exact .inr ⟨rfl, _, .inl ⟨_, List.mem_of_getElem? found, goes.mem_targets⟩, placed⟩
  | exception found thrown caught placed =>
    obtain ⟨_, _, -, ⟨protects, -⟩, -⟩ := caught
    exact .inr ⟨rfl, _, .inr ⟨_, protects.member, rfl⟩, placed⟩

/-- A run is shown to have a property by its last step. -/
theorem Runs.byVisits {motive : List (Visit ρ η) → Visit ρ η → Prop}
    (enter : motive [] ⟨.onward, 0, store⟩)
    (step : ∀ visits last next, body.Runs runtime store (visits ++ [last]) →
      body.Step runtime last.state next → motive visits last → motive (visits ++ [last]) next)
    {run : List (Visit ρ η)} {here : Visit ρ η} (runs : body.Runs runtime store (run ++ [here])) :
    motive run here := by
  generalize same : run ++ [here] = visits at runs
  induction runs generalizing run here with
  | enter =>
    obtain ⟨rfl, last⟩ := List.append_inj' (same.trans (List.nil_append _).symm) rfl
    cases last
    exact enter
  | @step visits last next earlier leads ih =>
    obtain ⟨rfl, atEnd⟩ := List.append_inj' same rfl
    cases atEnd
    exact step visits last next earlier leads (ih rfl)

/-- What holds of a run that comes to the first of some items, and of every run that goes on from one
of them to the next, holds of all runs that come to any of them: none is leapt to but the first. -/
theorem Runs.along (start stop : Nat) {motive : List (Visit ρ η) → Visit ρ η → Prop}
    (closed : ∀ place, start < place → place ≤ stop → ¬ body.IsLanding place)
    (enter : ∀ run here, body.Runs runtime store (run ++ [here]) → here.state.position = start →
      motive run here)
    (goOn : ∀ run here next, motive run here → start ≤ here.state.position →
      here.state.position < stop → body.Step runtime here.state next → next.passage = .onward →
        next.state.position = here.state.position + 1 → motive (run ++ [here]) next)
    {run : List (Visit ρ η)} {here : Visit ρ η} (runs : body.Runs runtime store (run ++ [here]))
    (ahead : start ≤ here.state.position) (within : here.state.position ≤ stop) :
    motive run here := by
  refine Runs.byVisits (motive := fun run here => start ≤ here.state.position →
    here.state.position ≤ stop → motive run here) ?entered ?stepped runs ahead within
  case entered =>
    intro ahead _
    exact enter [] _ .enter (Nat.le_zero.mp ahead).symm
  case stepped =>
    intro visits last next earlier step ih ahead within
    by_cases first : next.state.position = start
    · exact enter _ next (earlier.step step) first
    · have inside : start < next.state.position := Nat.lt_of_le_of_ne ahead (Ne.symm first)
      rcases step.onward_or_lands with ⟨onward, position⟩ | ⟨-, lands⟩
      · have after : start ≤ last.state.position := by omega
        have before : last.state.position < stop := by omega
        exact goOn visits last next (ih after (Nat.le_of_lt before)) after before step onward position
      · exact (closed _ inside within lands).elim

/-- Control has come to an item that it cannot leap to from the item before. -/
theorem Runs.predecessor {run : List (Visit ρ η)} {here : Visit ρ η} {position : Nat}
    (runs : body.Runs runtime store (run ++ [here])) (after : here.state.position = position + 1)
    (closed : ¬ body.IsLanding (position + 1)) :
    ∃ visits last, run = visits ++ [last] ∧ body.Runs runtime store (visits ++ [last]) ∧
      last.state.position = position ∧ here.passage = .onward ∧
      body.Step runtime last.state here := by
  refine Runs.byVisits (motive := fun run here => here.state.position = position + 1 →
    ∃ visits last, run = visits ++ [last] ∧ body.Runs runtime store (visits ++ [last]) ∧
      last.state.position = position ∧ here.passage = .onward ∧
      body.Step runtime last.state here) ?entered ?stepped runs after
  case entered => rintro ⟨⟩
  case stepped =>
    intro visits last next earlier step _ after
    rcases step.onward_or_lands with ⟨onward, behind⟩ | ⟨-, lands⟩
    · exact ⟨visits, last, rfl, earlier, Nat.succ.inj (behind.symm.trans after), onward, step⟩
    · exact (closed (after ▸ lands)).elim

/-- An instruction that is never leapt past has completed when control is behind it. -/
theorem Runs.completed {run : List (Visit ρ η)} {here : Visit ρ η} {position : Nat}
    {step : SymInstruction} (runs : body.Runs runtime store (run ++ [here]))
    (found : body.items[position]? = some (.instruction step))
    (after : here.state.position = position + 1) (closed : ¬ body.IsLanding (position + 1)) :
    ∃ visits last, run = visits ++ [last] ∧ body.Runs runtime store (visits ++ [last]) ∧
      last.state.position = position ∧
      runtime.Completes step last.state.store here.state.store := by
  obtain ⟨visits, last, rfl, earlier, there, onward, leads⟩ := runs.predecessor after closed
  rcases step_instruction_cases (there ▸ found) leads with ⟨_, completes, rfl⟩ | ⟨leap, -⟩
  · exact ⟨visits, last, rfl, earlier, there, completes⟩
  · cases onward.symm.trans leap

/-- Items that can be run one after the other are run. -/
theorem Runs.straight {count : Nat} {stores : Nat → Store ρ η}
    (steps : ∀ position < count, body.Step runtime ⟨position, stores position⟩
      ⟨.onward, position + 1, stores (position + 1)⟩) :
    ∃ run, body.Runs runtime (stores 0) (run ++ [⟨.onward, count, stores count⟩]) := by
  induction count with
  | zero => exact ⟨[], .enter⟩
  | succ count ih =>
    obtain ⟨run, runs⟩ := ih fun position before => steps position (Nat.lt_succ_of_lt before)
    exact ⟨_, runs.step (steps count (Nat.lt_succ_self count))⟩

theorem Step.locals_eq {state : MachineState ρ η} {next : Visit ρ η} {slot : UInt16}
    (step : body.Step runtime state next)
    (unwritten : ∀ item ∈ body.items, item.writtenSlot? ≠ some slot) :
    next.state.store.locals slot = state.store.locals slot := by
  cases step with
  | mark | pass | jump | exception => rfl
  | instruction found done =>
    exact done.locals_eq (unwritten _ (List.mem_of_getElem? found))

/-- A local that nothing writes is what it was from the start. -/
theorem Runs.locals_eq {slot : UInt16}
    (unwritten : ∀ item ∈ body.items, item.writtenSlot? ≠ some slot) {run : List (Visit ρ η)}
    {here : Visit ρ η} (runs : body.Runs runtime store (run ++ [here])) :
    here.state.store.locals slot = store.locals slot :=
  Runs.byVisits (motive := fun _ here => here.state.store.locals slot = store.locals slot) rfl
    (fun _ _ _ _ step same => (step.locals_eq unwritten).trans same) runs

end Body

end ClassWeave
