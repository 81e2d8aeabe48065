import ClassWeave.Proofs.Execution.Paths
import ClassWeave.Proofs.Hook.Invisibility
import ClassWeave.Proofs.Hook.Triggering

/-!
# Hooks behind the result of a call

Three kinds of hooks put an answer in the place of what a call returned. They go behind the first item
after the call that accesses a local, whatever is done in between, and whether the local is stored or
loaded. If it is stored and nothing in between touches the result, then the hook finds the result in
the local.
-/

namespace ClassWeave

variable {ρ η : Type}

/-- The call whose result the answer takes the place of. -/
def TriggerShape.resultOf? : TriggerShape → Option CallSite
  | .callResult call | .aggregate call _ _ | .cache call _ _ => some call
  | _ => none

/-- Does the instruction leave what is on top of the stack? -/
def Runtime.KeepsTop (runtime : Runtime ρ η) (step : SymInstruction) : Prop :=
  ∀ before after, runtime.Completes step before after → after.stack.head? = before.stack.head?

theorem Runtime.keepsTop_increment (runtime : Runtime ρ η) (slot : UInt16) (amount : Int16) :
    runtime.KeepsTop (.increment slot amount) := by
  rintro before after ⟨number, -, rfl⟩
  rfl

namespace Body

variable {body : Body} {runtime : Runtime ρ η} {store : Store ρ η}

/-- Control only comes from the item before, and goes on with the same value on top of the stack. -/
inductive IdleAt (body : Body) (runtime : Runtime ρ η) (position : Nat) : Prop where
  | line {number : UInt16} (found : body.items[position]? = some (.line number))
  | label {label : Label} (found : body.items[position]? = some (.label label))
    (unused : ¬ body.IsTarget label)
  | instruction {step : SymInstruction} (found : body.items[position]? = some (.instruction step))
    (keeps : runtime.KeepsTop step)

theorem IdleAt.not_isLanding {position : Nat} (idle : body.IdleAt runtime position) :
    ¬ body.IsLanding position := by
  cases idle with
  | line found => exact Body.not_isLanding found nofun
  | instruction found => exact Body.not_isLanding found nofun
  | label found unused =>
    refine Body.not_isLanding found fun other isTarget same => ?_
    cases same
    exact unused isTarget

theorem IdleAt.head?_stack {position : Nat} {before : Store ρ η} {next : Visit ρ η}
    (idle : body.IdleAt runtime position) (leads : body.Step runtime ⟨position, before⟩ next)
    (onward : next.passage = .onward) : next.state.store.stack.head? = before.stack.head? := by
  cases idle with
  | line found => rw [(step_mark_iff found rfl).mp leads]
  | label found => rw [(step_mark_iff found rfl).mp leads]
  | instruction found keeps =>
    rcases step_instruction_cases found leads with ⟨after, completes, rfl⟩ | ⟨leap, -⟩
    · exact keeps before after completes
    · cases onward.symm.trans leap

/-- The end of a run that has come straight from a call, and still has on top of the stack what the
call left there. -/
inductive Brings (runtime : Runtime ρ η) (call : SymInstruction) (place : Nat)
    (top : Option (Value ρ)) : List (Visit ρ η) → Visit ρ η → Prop where
  | returned {run : List (Visit ρ η)} {caller : Visit ρ η} {after : Store ρ η}
    (called : caller.state.position = place)
    (done : runtime.Completes call caller.state.store after) (left : after.stack.head? = top) :
    Brings runtime call place top (run ++ [caller]) ⟨.onward, place + 1, after⟩
  | past {run : List (Visit ρ η)} {here : Visit ρ η} {after : Store ρ η}
    (brings : Brings runtime call place top run here) (left : after.stack.head? = top) :
    Brings runtime call place top (run ++ [here]) ⟨.onward, here.state.position + 1, after⟩

theorem Brings.head?_stack {call : SymInstruction} {place : Nat} {top : Option (Value ρ)}
    {run : List (Visit ρ η)} {here : Visit ρ η} (brings : Brings runtime call place top run here) :
    here.state.store.stack.head? = top := by
  cases brings with
  | returned _ _ left => exact left
  | past _ left => exact left

/-- What is brought is what the call left when it was done. -/
theorem Brings.completes {call : SymInstruction} {place : Nat} {top : Option (Value ρ)}
    {run : List (Visit ρ η)} {here : Visit ρ η} (brings : Brings runtime call place top run here) :
    ∃ before after, runtime.Completes call before after ∧ after.stack.head? = top := by
  induction brings with
  | returned _ done left => exact ⟨_, _, done, left⟩
  | past _ _ ih => exact ih

section

variable {call : SymInstruction} {place access : Nat}
  (calls : body.items[place]? = some (.instruction call))
  (idle : ∀ between, place < between → between < access → body.IdleAt runtime between)

include calls idle

/-- One step on the way from the call. -/
theorem Brings.step {run : List (Visit ρ η)} {here next : Visit ρ η}
    (brings : place < here.state.position → ∃ top, Brings runtime call place top run here)
    (ahead : place ≤ here.state.position) (before : here.state.position < access)
    (leads : body.Step runtime here.state next) (onward : next.passage = .onward) :
    ∃ top, Brings runtime call place top (run ++ [here]) next := by
  rcases Nat.eq_or_lt_of_le ahead with called | inside
  · have found : body.items[here.state.position]? = some (.instruction call) := called ▸ calls
    rcases step_instruction_cases found leads with ⟨after, completes, rfl⟩ | ⟨leap, -⟩
    · rw [← called]
      exact ⟨_, .returned called.symm completes rfl⟩
    · cases onward.symm.trans leap
  · obtain ⟨top, brings⟩ := brings inside
    have left := (idle _ inside before).head?_stack leads onward
    rcases leads.onward_or_lands with ⟨-, position⟩ | ⟨leap, -⟩
    · obtain ⟨_, _, after⟩ := next
      cases onward
      cases position
      exact ⟨top, .past brings (left.trans brings.head?_stack)⟩
    · cases onward.symm.trans leap

/-- A run that comes to an item behind the call has made the call, and has its result on top. -/
theorem Runs.brings {run : List (Visit ρ η)} {here : Visit ρ η}
    (closed : ¬ body.IsLanding access) (runs : body.Runs runtime store (run ++ [here]))
    (ahead : place < here.state.position) (within : here.state.position ≤ access) :
    ∃ top, Brings runtime call place top run here := by
  refine Runs.along place access
    (motive := fun run here =>
      place < here.state.position → ∃ top, Brings runtime call place top run here)
    (fun between inside before => ?closed) (fun _ _ _ first inside => ?enter)
    (fun run here next brings ahead before leads onward _ _ =>
      Brings.step calls idle brings ahead before leads onward)
    runs (Nat.le_of_lt ahead) within ahead
  case closed =>
    rcases Nat.eq_or_lt_of_le before with rfl | earlier
    · exact closed
    · exact (idle between inside earlier).not_isLanding
  case enter => exact (Nat.lt_irrefl _ (first ▸ inside)).elim

/-- Behind a store, the local holds what the call returned. -/
theorem Runs.stores {kind : SlotKind} {slot : UInt16}
    (stores : body.items[access]? = some (.instruction (.store kind slot)))
    (closed : ¬ body.IsLanding (access + 1)) (later : place < access) {run : List (Visit ρ η)}
    {here : Visit ρ η} (runs : body.Runs runtime store (run ++ [here]))
    (behind : here.state.position = access + 1) :
    ∃ visits storing value rest, run = visits ++ [storing] ∧ storing.state.position = access ∧
      Brings runtime call place (some value) visits storing ∧
      storing.state.store.stack = value :: rest ∧ here.state.store.stack = rest ∧
      here.state.store.locals slot = value := by
  obtain ⟨visits, storing, rfl, earlier, there, value, rest, stack, after⟩ :=
    runs.completed stores behind closed
  obtain ⟨top, brings⟩ := Runs.brings calls idle (Body.not_isLanding stores nofun) earlier
    (there ▸ later) (Nat.le_of_eq there)
  have isTop := brings.head?_stack
  rw [stack] at isTop
  cases isTop
  refine ⟨visits, storing, value, rest, rfl, there, brings, stack, ?_, ?_⟩
  · rw [after]
  · rw [after]
    exact Function.update_self ..

end

end Body

/-- The item where a call is found is an instruction that makes it. -/
theorem FirstOf.calls {items : List Item} {call : CallSite} {start place : Nat} {method : MethodRef}
    (first : FirstOf call.calledBy? items start place method) :
    call.isCallOf method = true ∧ ∃ kind, items[place]? = some (.instruction (.invoke kind method)) := by
  obtain ⟨item, there, selected⟩ := Option.bind_eq_some_iff.mp first.answered
  cases item with
  | label | line | branch => cases selected
  | instruction step =>
    cases step with
    | invoke kind called =>
      rw [CallSite.calledBy?, Option.ite_none_right_eq_some] at selected
      obtain ⟨isCall, same⟩ := selected
      cases same
      exact ⟨isCall, kind, there⟩
    | _ => cases selected

namespace HookPlan

variable {plan : HookPlan} {call : CallSite}

/-- Hooks for a result go behind the first access to a local. -/
theorem triggersAt_iff_accessedAt (replaces : plan.target.shape.resultOf? = some call)
    {items : List Item} {position : Nat} {slot : UInt16} :
    plan.target.shape.TriggersAt items position slot ↔ ∃ access, position = access + 1 ∧
      call.AccessedAt items access slot ∧ HookSite.hasScratchLocals plan.target.shape slot = true := by
  generalize plan.target.shape = shape at replaces
  constructor
  · intro triggers
    cases triggers with
    | entry | entrySelect | callBranch => cases replaces
    | callResult accessed | cache accessed =>
      cases replaces
      exact ⟨_, rfl, accessed, rfl⟩
    | aggregate accessed room =>
      cases replaces
      exact ⟨_, rfl, accessed, decide_eq_true room⟩
  · rintro ⟨access, rfl, accessed, room⟩
    cases shape with
    | entry | entrySelect | callBranch => cases replaces
    | callResult =>
      cases replaces
      exact .callResult accessed
    | aggregate =>
      cases replaces
      exact .aggregate accessed (of_decide_eq_true room)
    | cache =>
      cases replaces
      exact .cache accessed

/-- A hook for the result of a call goes behind the first access to a local after the first such call,
whatever kind of access that is. A body without one is left alone. If the access is a store, and only
idle items stand between it and the call, then on every run that comes to the hook the store has taken
off the stack what the call returned, and that is in the local that the hook tests. -/
theorem hooked_behind_access (replaces : plan.target.shape.resultOf? = some call) (body : Body) :
    (plan.hooked? body = none ∧ ∀ access slot, call.AccessedAt body.items access slot →
      HookSite.hasScratchLocals plan.target.shape slot = false) ∨
    ∃ place invoke method access slot step hooked,
      FirstOf call.calledBy? body.items 0 place method ∧ call.isCallOf method = true ∧
      hooked.items[place]? = some (.instruction (.invoke invoke method)) ∧
      FirstOf Item.accessedSlot? body.items (place + 1) access slot ∧
      hooked.items[access]? = some (.instruction step) ∧ step.accessedSlot? = some slot ∧
      plan.hooked? body = some hooked ∧
      hooked = body.splice (access + 1)
        (HookSite.items plan.call plan.target slot body.nextLabel)
        (HookSite.nextLabel plan.target.shape body.nextLabel) ∧
      ∀ {ρ η : Type} (runtime : Runtime ρ η) (kind : SlotKind), step = .store kind slot →
        (∀ between, place < between → between < access → hooked.IdleAt runtime between) →
        ∀ (store : Store ρ η) (run : List (Visit ρ η)) (here : Visit ρ η),
          hooked.Runs runtime store (run ++ [here]) → here.state.position = access + 1 →
          ∃ visits storing value rest, run = visits ++ [storing] ∧
            storing.state.position = access ∧
            Body.Brings runtime (.invoke invoke method) place (some value) visits storing ∧
            storing.state.store.stack = value :: rest ∧ here.state.store.stack = rest ∧
            here.state.store.locals slot = value := by
  cases found : plan.hooked? body with
  | none =>
    refine .inl ⟨rfl, fun access slot accessed => ?_⟩
    by_contra room
    have triggers := (triggersAt_iff_accessedAt replaces).mpr
      ⟨access, rfl, accessed, Bool.eq_true_of_not_eq_false room⟩
    rw [hooked_of_triggersAt triggers] at found
    cases found
  | some hooked =>
    obtain ⟨position, slot, triggers, spliced⟩ := exists_spliced found
    obtain ⟨access, rfl, ⟨place, method, called, accessed⟩, -⟩ :=
      (triggersAt_iff_accessedAt replaces).mp triggers
    obtain ⟨isCall, invoke, calls⟩ := called.calls
    obtain ⟨step, accesses, ofSlot⟩ := accessed.accesses
    have kept {place : Nat} (before : place ≤ access) : hooked.items[place]? = body.items[place]? :=
      calc hooked.items[place]?
        _ = hooked.items[Body.shift (access + 1)
              (HookSite.items plan.call plan.target slot body.nextLabel).length place]? := by
            rw [Body.shift, if_pos (Nat.lt_succ_of_le before)]
        _ = body.items[place]? := by rw [spliced, Body.splice_shift triggers.within]
    have loads : hooked.items[access + 1]? = some (.instruction (.load .reference slot)) := by
      rw [spliced]
      exact Body.splice_inside triggers.within (show 0 < _ by simp [HookSite.items])
    have later : place < access := accessed.ahead
    rw [← kept (Nat.le_of_lt later)] at calls
    rw [← kept (Nat.le_refl access)] at accesses
    refine .inr ⟨place, invoke, method, access, slot, step, hooked, called, isCall, calls, accessed,
      accesses, ofSlot, rfl, spliced, ?_⟩
    rintro _ _ runtime kind rfl idle store run here runs behind
    have notLanding : ¬ hooked.IsLanding (access + 1) :=
      Body.not_isLanding loads fun _ _ same => by cases same
    exact Body.Runs.stores calls idle accesses notLanding later runs behind

/-- The thread that is stored first is the one that the hook finds, though a local is counted up
before it is stored. -/
theorem storedThread_found :
    storingPlan.target.shape.resultOf? = some ⟨.thread, .currentThread, ⟨[], some (.object .thread)⟩⟩ ∧
    ∃ hooked, storingPlan.hooked? storingTwice = some hooked ∧
      ∀ (store : Store Nat Unit) run here, hooked.Runs pollingRuntime store (run ++ [here]) →
        here.state.position = 3 → here.state.store.locals 1 = .reference (some 1) := by
  refine ⟨rfl, ?_⟩
  rcases @hooked_behind_access storingPlan _ rfl storingTwice with ⟨⟨⟩, -⟩ |
    ⟨place, invoke, method, access, slot, step, hooked, called, -, calls, accessed, accesses, -, found,
      spliced, finds⟩
  have first : FirstOf (CallSite.calledBy? ⟨.thread, .currentThread, ⟨[], some (.object .thread)⟩⟩)
      storingTwice.items 0 0 (.ofClass .thread .currentThread [] (some (.object .thread))) :=
    ⟨Nat.le_refl 0, rfl, fun _ _ before => (Nat.not_lt_zero _ before).elim⟩
  obtain ⟨rfl, rfl⟩ := called.unique first
  have stored : FirstOf Item.accessedSlot? storingTwice.items 1 2 1 := by
    refine ⟨by decide, rfl, fun other after before => ?_⟩
    rw [Nat.le_antisymm (Nat.le_of_lt_succ before) after]
    rfl
  obtain ⟨rfl, rfl⟩ := accessed.unique stored
  subst spliced
  cases calls
  cases accesses
  refine ⟨_, found, fun store run here runs behind => ?_⟩
  have idle : ∀ between, 0 < between → between < 2 → (storingTwice.splice (2 + 1)
      (HookSite.items storingPlan.call storingPlan.target 1 storingTwice.nextLabel)
      (HookSite.nextLabel storingPlan.target.shape storingTwice.nextLabel)).IdleAt pollingRuntime
        between := by
    intro between after before
    rw [Nat.le_antisymm (Nat.le_of_lt_succ before) after]
    exact .instruction rfl (pollingRuntime.keepsTop_increment 0 1)
  obtain ⟨_, storing, value, rest, -, -, brings, -, -, holds⟩ :=
    finds pollingRuntime .reference rfl idle store run here runs behind
  obtain ⟨before, after, ⟨pushes, -⟩, top⟩ := brings.completes
  rw [show after.stack = .reference (some 1) :: before.stack from pushes] at top
  rw [holds, ← Option.some.inj top]

/-- Asks for the current thread, does not look at it, and returns an object that was there before. -/
def discarding : Body where
  items := [.instruction (.invoke .static
      (.ofClass .thread .currentThread [] (some (.object .thread)))),
    .instruction (.plain (.stack .pop)), .instruction (.load .reference 0), .branch (.ret .reference)]
  handlers := []
  localVariables := []
  nextLabel := ⟨0⟩

/-- The result is not stored at all, and another object is replaced. -/
theorem discarding_hooked :
    storingPlan.target.shape.resultOf? = some ⟨.thread, .currentThread, ⟨[], some (.object .thread)⟩⟩ ∧
    storingPlan.hooked? discarding = some (discarding.splice 3
      (HookSite.items storingPlan.call storingPlan.target 0 ⟨0⟩) ⟨1⟩) ∧
    discarding.items[2]? = some (.instruction (.load .reference 0)) ∧
    ∀ (place : Nat) kind slot, discarding.items[place]? ≠ some (.instruction (.store kind slot)) := by
  refine ⟨rfl, rfl, rfl, fun place kind slot found => ?_⟩
  have member := List.mem_of_getElem? found
  simp [discarding] at member

end HookPlan

end ClassWeave
