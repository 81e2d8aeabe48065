import Mathlib.Tactic.IntervalCases
import ClassWeave.Proofs.Execution.Paths
import ClassWeave.Proofs.Execution.Reflection
import ClassWeave.Proofs.Hook.Asking
import ClassWeave.Proofs.Hook.Storing

/-!
# Where answers are cached

A hook that caches its answer sets a field of what it finds in the first local. That is the receiver
of the method if it has one and nothing else is stored there: neither by the method itself nor by the
hook, which has put the answer in the place of the object before.
-/

namespace ClassWeave

variable {ρ η : Type}

/-- The object that a method has been called on, given what it is entered with. -/
def Store.receiver? (store : Store ρ η) (isStatic : Bool) : Option (Value ρ) :=
  if isStatic then none else some (store.locals 0)

/-- Objects are made as everywhere: a new one is pushed, copied, and taken by its constructor. -/
structure Runtime.MakesObjects (runtime : Runtime ρ η) : Prop where
  new {type : RefType} {before : Store ρ η} {stack : List (Value ρ)} {heap : η} :
    runtime.completes (.onClass .new type) before stack heap →
      ∃ object, stack = object :: before.stack
  dup {before : Store ρ η} {stack : List (Value ρ)} {heap : η} :
    runtime.completes (.plain (.stack .dup)) before stack heap →
      ∃ value rest, before.stack = value :: rest ∧ stack = value :: value :: rest
  construct {type : BinaryName} {parameter : FieldType} {before : Store ρ η}
    {stack : List (Value ρ)} {heap : η} :
    runtime.completes (.invoke .special (.ofClass type .init [parameter] none)) before stack heap →
      ∃ argument object, before.stack = argument :: object :: stack

theorem Item.writtenSlot?_of_readsOnly {item : Item} (reads : item.readsOnly = true) :
    item.writtenSlot? = none := by
  unfold writtenSlot?
  split
  · cases reads
  · cases reads
  · rfl

namespace HookSite

variable {call : HookCall} {target : Target} {slot : UInt16} {fresh : Label}

/-- Before it goes on with the answer, a hook that caches it changes no local but that of the
object. -/
theorem writtenSlot?_of_mem_caching {site : CallSite} {field : FieldRef} {referenceClass : BinaryName}
    (shape : target.shape = .cache site field referenceClass) {item : Item}
    (member : item ∈ items call target slot fresh) {written : UInt16}
    (writes : item.writtenSlot? = some written) : written = slot := by
  rw [items_split, useAnswer, shape] at member
  rcases List.mem_append.mp member with member | landing
  · rcases List.mem_append.mp member with asked | used
    · rw [Item.writtenSlot?_of_readsOnly (asking_readOnly asked)] at writes
      cases writes
    · simp only [returnCached, step, List.mem_cons, List.not_mem_nil, or_false] at used
      rcases used with rfl | rfl | rfl | rfl | rfl | rfl | rfl | rfl | rfl
      case inl => exact (Option.some.inj writes).symm
      all_goals cases writes
  · cases List.mem_singleton.mp landing
    cases writes

end HookSite

namespace Body

variable {body : Body} {runtime : Runtime ρ η} {entered : Store ρ η} {start : Nat} {field : FieldRef}
  {referenceClass : BinaryName} {slot : UInt16}

/-- When the field is set, the object under the new one is the first local's, and the local of the
hook holds the answer. -/
theorem Runs.caches (makes : runtime.MakesObjects)
    (placed : body.HasAt start (HookSite.returnCached field referenceClass slot))
    {run : List (Visit ρ η)} {here : Visit ρ η} (runs : body.Runs runtime entered (run ++ [here]))
    (there : here.state.position = start + 6) :
    ∃ wrapper rest, here.state.store.stack = wrapper :: here.state.store.locals 0 :: rest ∧
      ∃ answering ∈ run, answering.state.position = start ∧
        answering.state.store.stack.head? = some (here.state.store.locals slot) := by
  have closed (index : Nat) {step : SymInstruction}
      (found : (HookSite.returnCached field referenceClass slot)[index]? =
        some (.instruction step)) : ¬ body.IsLanding (start + index) :=
    not_isLanding (placed _ _ found) nofun
  -- backwards from the field: the constructor, its argument, the copy, the new object, the receiver
  obtain ⟨_, constructing, rfl, runs, there, constructs⟩ :=
    runs.completed (placed 5 _ rfl) there (closed 6 rfl)
  obtain ⟨argument, object, taken⟩ := makes.construct constructs.1
  obtain ⟨_, loading, rfl, runs, there, loads⟩ :=
    runs.completed (placed 4 _ rfl) there (closed 5 rfl)
  obtain ⟨_, copying, rfl, runs, there, copies⟩ :=
    runs.completed (placed 3 _ rfl) there (closed 4 rfl)
  obtain ⟨wrapper, below, top, copied⟩ := makes.dup copies.1
  obtain ⟨_, making, rfl, runs, there, makesNew⟩ :=
    runs.completed (placed 2 _ rfl) there (closed 3 rfl)
  obtain ⟨made, pushed⟩ := makes.new makesNew.1
  obtain ⟨_, receiving, rfl, runs, there, receives⟩ :=
    runs.completed (placed 1 _ rfl) there (closed 2 rfl)
  obtain ⟨visits, answering, rfl, -, there, answer, rest, answered, stores⟩ :=
    runs.completed (placed 0 _ rfl) there (closed 1 rfl)
  have sameLocals : here.state.store.locals = receiving.state.store.locals := by
    rw [constructs.2, loads, Store.locals_push, copies.2, makesNew.2, receives, Store.locals_push]
  have bare : receiving.state.store.stack = rest := by rw [stores]
  have holds : receiving.state.store.locals slot = answer := by
    rw [stores]
    exact Function.update_self ..
  have onTop : here.state.store.stack = wrapper :: below := by
    rw [loads, Store.stack_push, copied] at taken
    exact (List.cons.inj (List.cons.inj taken).2).2.symm
  have under : below = receiving.state.store.locals 0 :: rest := by
    rw [pushed, receives, Store.stack_push, bare] at top
    exact (List.cons.inj top).2.symm
  refine ⟨wrapper, rest, ?_, answering, by simp, there, ?_⟩
  · rw [onTop, under, sameLocals]
  · rw [answered, sameLocals, holds]
    rfl

end Body

/-- When a hook that caches its answer sets the field, it does so in what the first local holds. That
is the answer if the object that triggered the hook was in the first local. Otherwise it is what the
method has been entered with if the method stores nothing there: the receiver of a method that is not
static. -/
theorem HookPlan.caches_in_receiver {plan : HookPlan} {body hooked : Body} {call : CallSite}
    {field : FieldRef} {referenceClass : BinaryName}
    (shape : plan.target.shape = .cache call field referenceClass)
    (found : plan.hooked? body = some hooked) :
    ∃ access slot answered, call.AccessedAt body.items access slot ∧
      hooked = body.splice (access + 1)
        (HookSite.items plan.call plan.target slot body.nextLabel)
        (HookSite.nextLabel plan.target.shape body.nextLabel) ∧
      access < answered ∧
      hooked.items[answered]? = some (.instruction (.store .reference slot)) ∧
      hooked.items[answered + 6]? = some (.instruction (.field .putField field)) ∧
      ∀ {ρ η : Type} (runtime : Runtime ρ η), runtime.MakesObjects →
        ∀ (entered : Store ρ η) (run : List (Visit ρ η)) (here : Visit ρ η),
          hooked.Runs runtime entered (run ++ [here]) → here.state.position = answered + 6 →
          ∃ wrapper object rest, here.state.store.stack = wrapper :: object :: rest ∧
            object = here.state.store.locals 0 ∧
            (slot = 0 → ∃ answering ∈ run, answering.state.position = answered ∧
              answering.state.store.stack.head? = some object) ∧
            (slot ≠ 0 → (∀ item ∈ body.items, item.writtenSlot? ≠ some 0) →
              ∀ isStatic, entered.receiver? isStatic = some object ↔ isStatic = false) := by
  have replaces : plan.target.shape.resultOf? = some call := by rw [shape]; rfl
  obtain ⟨position, slot, triggers, spliced⟩ := exists_spliced found
  obtain ⟨access, rfl, accessed, -⟩ := (triggersAt_iff_accessedAt replaces).mp triggers
  have whole : hooked.HasAt (access + 1)
      (HookSite.items plan.call plan.target slot body.nextLabel) :=
    spliced ▸ Body.splice_hasAt triggers.within
  rw [HookSite.items_split, HookSite.useAnswer, shape] at whole
  have placed := (Body.hasAt_append.mp (Body.hasAt_append.mp whole).1).2
  refine ⟨access, slot, _, accessed, spliced, Nat.lt_add_right _ (Nat.lt_succ_self access),
    placed 0 _ rfl, placed 6 _ rfl, fun runtime makes entered run here runs there => ?_⟩
  obtain ⟨wrapper, rest, stack, answering, among, before, answer⟩ := runs.caches makes placed there
  refine ⟨wrapper, here.state.store.locals 0, rest, stack, rfl, ?_, fun apart unwritten isStatic => ?_⟩
  · rintro rfl
    exact ⟨answering, among, before, answer⟩
  · have untouched : ∀ item ∈ hooked.items, item.writtenSlot? ≠ some 0 := by
      intro item member writes
      rw [spliced, Body.splice, List.mem_append, List.mem_append] at member
      rcases member with (front | inHook) | back
      · exact unwritten item (List.mem_of_mem_take front) writes
      · exact apart (HookSite.writtenSlot?_of_mem_caching shape inHook writes).symm
      · exact unwritten item (List.mem_of_mem_drop back) writes
    rw [runs.locals_eq untouched]
    cases isStatic <;> simp [Store.receiver?]

namespace HookPlan

def softReference : BinaryName := ⟨"java/lang/ref/SoftReference", by decide⟩

def cachingField : FieldRef := ⟨.thread, ⟨"cached", by decide⟩, .object softReference⟩

def fetchingSite : CallSite := ⟨.thread, .currentThread, ⟨[], some (.object .thread)⟩⟩

/-- Caches what answers in the place of the current thread. -/
def cachingPlan : HookPlan where
  call := .of gatheringFields answering
  target := ⟨gatheringTarget.name, ⟨[.object .object], some (.object .object)⟩,
    .cache fetchingSite cachingField softReference, []⟩

/-- Returns the current thread, which is in the second local. -/
def fetching : Body where
  items := [.instruction (.invoke .static
      (.ofClass .thread .currentThread [] (some (.object .thread)))),
    .instruction (.store .reference 1), .instruction (.load .reference 1), .branch (.ret .reference)]
  handlers := []
  localVariables := []
  nextLabel := ⟨0⟩

def fetchingHooked : Body :=
  fetching.splice 2 (HookSite.items cachingPlan.call cachingPlan.target 1 ⟨0⟩) ⟨1⟩

theorem fetching_hooked : cachingPlan.hooked? fetching = some fetchingHooked := by
  rfl

/-- What instructions do on the stack, where 1 is the current thread, 2 an array, 3 a new object and 4
an answer. -/
def fetchingStack : SymInstruction → List (Value Nat) → Option (List (Value Nat))
  | .plain (.stack op), stack => op.rearrange stack
  | .plain (.push constant), stack => some (constant.value :: stack)
  | .invoke .static _, stack => some (.reference (some 1) :: stack)
  | .onClass .newArray _, _ :: rest => some (.reference (some 2) :: rest)
  | .onClass .new _, stack => some (.reference (some 3) :: stack)
  | .invoke .virtual _, _ :: _ :: _ :: rest => some (.reference (some 4) :: rest)
  | .invoke .special _, _ :: _ :: rest => some rest
  | _, _ => none

/-- Every object implements the interface. -/
def fetchingRuntime : Runtime Nat Unit where
  thisClass := .thread
  static _ _ := .reference (some 5)
  isInstance _ _ _ answer := answer = true
  isCaught _ _ _ := false
  completes step before stack _ := fetchingStack step before.stack = some stack
  throws _ _ _ _ := False

theorem fetchingRuntime_makesObjects : fetchingRuntime.MakesObjects where
  new done := ⟨_, (Option.some.inj done).symm⟩
  dup {before _ _} done := by
    obtain ⟨stack, _, _⟩ := before
    cases stack with
    | nil => cases done
    | cons value rest =>
      obtain ⟨-, same⟩ := Option.ite_none_left_eq_some.mp done
      exact ⟨value, rest, rfl, (Option.some.inj same).symm⟩
  construct {_ _ before _ _} done := by
    obtain ⟨stack, _, _⟩ := before
    match stack, done with
    | argument :: object :: rest, done => exact ⟨argument, object, by rw [← Option.some.inj done]⟩

/-- The stacks from the start to where the field is set, if 0 is in the first local. -/
def fetchingStacks : List (List (Value Nat)) :=
  let object (place : Nat) : Value Nat := .reference (some place)
  [[], [object 1], [],
    -- the test
    [object 1], [object 5, object 1], [object 1, object 5], [.int 1], [],
    -- the call
    [object 1], [.int 0, object 1], [object 2, object 1], [object 5, object 2, object 1],
    [object 5, object 2, object 1, object 5], [object 2, object 1, object 5], [object 4],
    -- the new object
    [], [object 0], [object 3, object 0], [object 3, object 3, object 0],
    [object 4, object 3, object 3, object 0], [object 3, object 0]]

def fetchingStore (position : Nat) : Store Nat Unit where
  stack := fetchingStacks.getD position []
  locals :=
    let entered (_ : UInt16) : Value Nat := .reference (some 0)
    let fetched := Function.update entered 1 (.reference (some 1))
    if position < 2 then entered
    else if position < 15 then fetched
    else Function.update fetched 1 (.reference (some 4))
  heap := ()

theorem fetchingHooked_runs : ∃ run, fetchingHooked.Runs fetchingRuntime (fetchingStore 0)
    (run ++ [⟨.onward, 20, fetchingStore 20⟩]) := by
  refine Body.Runs.straight fun position before => ?_
  interval_cases position
  case «1» | «14» => exact .instruction rfl ⟨_, _, rfl, rfl⟩
  case «2» | «3» | «7» | «10» | «15» | «18» => exact .instruction rfl rfl
  case «4» => exact .instruction rfl ⟨_, _, _, rfl, rfl⟩
  case «5» => exact .instruction rfl ⟨_, _, _, _, rfl, rfl, rfl⟩
  case «6» => exact .pass rfl (.passed .zero)
  all_goals exact .instruction rfl ⟨rfl, rfl⟩

theorem fetching_accessed : fetchingSite.AccessedAt fetching.items 1 1 :=
  ⟨0, _, ⟨Nat.le_refl 0, rfl, fun _ _ before => (Nat.not_lt_zero _ before).elim⟩,
    ⟨Nat.le_refl 1, rfl, fun _ after before => (Nat.not_lt_of_le after before).elim⟩⟩

/-- Called on an object, the method sets the field of that object. -/
theorem fetching_cachesInReceiver :
    cachingPlan.target.shape = .cache fetchingSite cachingField softReference ∧
    cachingPlan.hooked? fetching = some fetchingHooked ∧ fetchingRuntime.MakesObjects ∧
    ∃ run here, fetchingHooked.Runs fetchingRuntime (fetchingStore 0) (run ++ [here]) ∧
      fetchingHooked.items[here.state.position]? =
        some (.instruction (.field .putField cachingField)) ∧
      ∃ wrapper object rest, here.state.store.stack = wrapper :: object :: rest ∧
        (fetchingStore 0).receiver? false = some object := by
  refine ⟨rfl, fetching_hooked, fetchingRuntime_makesObjects, ?_⟩
  obtain ⟨access, slot, answered, accessed, -, later, answers, sets, caches⟩ :=
    caches_in_receiver rfl fetching_hooked
  obtain ⟨rfl, rfl⟩ := accessed.unique fetching_accessed
  have within : answered < 20 :=
    Nat.lt_of_add_lt_add_right (List.getElem?_eq_some_iff.mp sets).1
  obtain rfl : answered = 14 := by
    interval_cases answered <;> first | rfl | cases sets
  obtain ⟨run, runs⟩ := fetchingHooked_runs
  obtain ⟨wrapper, object, rest, stack, -, -, isReceiver⟩ :=
    caches fetchingRuntime fetchingRuntime_makesObjects (fetchingStore 0) run _ runs rfl
  exact ⟨run, _, runs, sets, wrapper, object, rest, stack,
    (isReceiver (by decide) (by decide) false).mpr rfl⟩

def fetchingMethod (isStatic : Bool) : MethodContext :=
  ⟨.thread, cachingPlan.target.name, cachingPlan.target.descriptor, isStatic⟩

/-- All checks are passed for a static method, and yet it sets the field of its first argument: it is
not called on any object. -/
theorem fetching_cachesInArgument :
    HookSpec.ofParts answering [cachingPlan.target] = .ok ⟨answering, [cachingPlan.target]⟩ ∧
    cachingPlan.target.checkTypes answering .flat = .ok () ∧
    HookFields.of .thread answering = .ok gatheringFields ∧
    cachingPlan.call = .of gatheringFields answering ∧
    cachingPlan.hooked? fetching = some fetchingHooked ∧
    (∃ typing, fetchingHooked.inferFrames (fetchingMethod true) .flat = .ok typing) ∧
    ∃ run here, fetchingHooked.Runs fetchingRuntime (fetchingStore 0) (run ++ [here]) ∧
      fetchingHooked.items[here.state.position]? =
        some (.instruction (.field .putField cachingField)) ∧
      ∃ wrapper object rest, here.state.store.stack = wrapper :: object :: rest ∧
        (fetchingStore 0).receiver? (fetchingMethod true).isStatic ≠ some object := by
  have typed : ∃ typing, fetchingHooked.inferFrames (fetchingMethod true) .flat = .ok typing := by
    have found : (fun _ => ()) <$> fetchingHooked.inferFrames (fetchingMethod true) .flat = .ok () := by
      cbv
    obtain ⟨typing, typed, -⟩ := Outcome.map_ok.mp found
    exact ⟨typing, typed⟩
  obtain ⟨run, runs⟩ := fetchingHooked_runs
  exact ⟨by decide +kernel, by cbv, by decide +kernel, rfl, fetching_hooked, typed, run, _, runs, rfl, _,
    _, [], rfl, fun same => by cases same⟩

end HookPlan

end ClassWeave
