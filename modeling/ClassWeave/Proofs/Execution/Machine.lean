import Mathlib.Logic.Function.Basic
import ClassWeave.Hook.Call
import ClassWeave.Proofs.Typing.Flow

/-!
# Running a body

A method body as a machine over the position of an item, the operand stack, the locals and the heap.
What is done to locals, where jumps lead, and how an object is tested is spelt out here; all else is
left to the runtime.
-/

namespace ClassWeave

/-- What a local or an entry of the stack holds, given what the references to objects are. -/
inductive Value (ρ : Type) where
  | int (number : Int32)
  | long (number : Int64)
  | float (bits : UInt32)
  | double (bits : UInt64)
  /-- No object is `null`. -/
  | reference (object : Option ρ)

/-- Truth values are numbers. -/
def Value.ofBool {ρ : Type} (answer : Bool) : Value ρ := .int (if answer then 1 else 0)

theorem Value.ofBool_inj {ρ : Type} {first second : Bool} :
    (Value.ofBool first : Value ρ) = .ofBool second ↔ first = second := by
  cases first <;> cases second <;> simp [ofBool]

/-- All that an item can change but the position: `η` is what heaps are. -/
structure Store (ρ η : Type) where
  stack : List (Value ρ)
  locals : UInt16 → Value ρ
  heap : η

def Store.push {ρ η : Type} (store : Store ρ η) (value : Value ρ) : Store ρ η :=
  { store with stack := value :: store.stack }

@[simp]
theorem Store.stack_push {ρ η : Type} (store : Store ρ η) (value : Value ρ) :
    (store.push value).stack = value :: store.stack := rfl

@[simp]
theorem Store.locals_push {ρ η : Type} (store : Store ρ η) (value : Value ρ) :
    (store.push value).locals = store.locals := rfl

@[simp]
theorem Store.heap_push {ρ η : Type} (store : Store ρ η) (value : Value ρ) :
    (store.push value).heap = store.heap := rfl

/-- What bodies run on. -/
structure Runtime (ρ η : Type) where
  /-- The class whose method runs. It is initialized, so its static fields can just be read. -/
  thisClass : BinaryName
  static : η → FieldRef → Value ρ
  /-- What the test may answer whether an object is an instance of a class, given its class object.
  If there is no answer, the test throws. -/
  isInstance : η → (type object : Value ρ) → Bool → Prop
  /-- May a handler for exceptions of this class take this one? -/
  isCaught : η → (exception : ρ) → BinaryName → Bool
  /-- The stack and the heap after an instruction of which nothing is known here. -/
  completes : SymInstruction → Store ρ η → List (Value ρ) → η → Prop
  /-- The exception that an item throws, and the heap that has it. -/
  throws : Item → Store ρ η → ρ → η → Prop

namespace Runtime

variable {ρ η : Type} (runtime : Runtime ρ η)

/-- Is it spelt out what the instruction does? -/
def knows : SymInstruction → Bool
  | .load _ _ | .store _ _ | .increment _ _ | .plain (.stack .swap) => true
  | .field .getStatic field => field.owner = runtime.thisClass
  | .invoke .virtual method => method = HookCall.isInstanceMethod
  | _ => false

/-- Only what is spelt out changes locals. -/
def CompletesUnknown (step : SymInstruction) (before after : Store ρ η) : Prop :=
  runtime.completes step before after.stack after.heap ∧ after.locals = before.locals

/-- What an instruction does if nothing is thrown. -/
def Completes (step : SymInstruction) (before after : Store ρ η) : Prop :=
  match step with
  | .load _ slot => after = before.push (before.locals slot)
  | .store _ slot => ∃ value rest, before.stack = value :: rest ∧
    after = ⟨rest, Function.update before.locals slot value, before.heap⟩
  | .increment slot amount => ∃ number, before.locals slot = .int number ∧
    after = { before with
      locals := Function.update before.locals slot (.int (number + amount.toInt32)) }
  | .plain (.stack .swap) => ∃ first second rest, before.stack = first :: second :: rest ∧
    after = { before with stack := second :: first :: rest }
  | .field .getStatic field =>
    if field.owner = runtime.thisClass then after = before.push (runtime.static before.heap field)
    else runtime.CompletesUnknown step before after
  | .invoke .virtual method =>
    if method = HookCall.isInstanceMethod then
      ∃ object type rest answer, before.stack = object :: type :: rest ∧
        runtime.isInstance before.heap type object answer ∧
        after = { before with stack := .ofBool answer :: rest }
    else runtime.CompletesUnknown step before after
  | _ => runtime.CompletesUnknown step before after

/-- What an item throws. Instructions that are known only do if they cannot complete, and of the
branches only those that leave the method. -/
def Throws (item : Item) (store : Store ρ η) (exception : ρ) (heap : η) : Prop :=
  runtime.throws item store exception heap ∧
    match item with
    | .instruction step => runtime.knows step = true → ∀ after, ¬ runtime.Completes step store after
    | .branch .athrow | .branch (.ret _) => True
    | _ => False

end Runtime

def Comparison.holds (comparison : Comparison) (first second : Int32) : Bool :=
  match comparison with
  | eq => first == second
  | ne => first != second
  | lt => first < second
  | ge => second ≤ first
  | gt => second < first
  | le => first ≤ second

/-- Does the equality hold between things that are, or are not, the same? -/
def Equality.holds (equality : Equality) (same : Bool) : Bool :=
  match equality with
  | eq => same
  | ne => !same

variable {ρ η : Type}

/-- What a test finds on top of the stack, and what it leaves there. -/
inductive Test.Decides : Test → List (Value ρ) → Bool → List (Value ρ) → Prop where
  | zero {comparison : Comparison} {number : Int32} {rest : List (Value ρ)} :
      Decides (.zero comparison) (.int number :: rest) (comparison.holds number 0) rest
  | ints {comparison : Comparison} {first second : Int32} {rest : List (Value ρ)} :
      Decides (.ints comparison) (.int second :: .int first :: rest)
        (comparison.holds first second) rest
  | same {equality : Equality} {object : Option ρ} {rest : List (Value ρ)} :
      Decides (.references equality) (.reference object :: .reference object :: rest)
        (equality.holds true) rest
  | different {equality : Equality} {first second : Option ρ} {rest : List (Value ρ)}
      (apart : first ≠ second) :
      Decides (.references equality) (.reference second :: .reference first :: rest)
        (equality.holds false) rest
  | null {equality : Equality} {object : Option ρ} {rest : List (Value ρ)} :
      Decides (.null equality) (.reference object :: rest) (equality.holds object.isNone) rest

/-- A truth value is zero if it is not true. -/
theorem Test.decides_ofBool {said answer : Bool} {rest other : List (Value ρ)} :
    (Test.zero .eq).Decides (.ofBool said :: rest) answer other ↔ answer = !said ∧ other = rest := by
  unfold Value.ofBool
  constructor
  · intro decides
    cases decides with
    | zero => cases said <;> exact ⟨rfl, rfl⟩
  · rintro ⟨rfl, rfl⟩
    cases said with
    | false => exact .zero
    | true => exact .zero

/-- Where a branch goes, and the stack it leaves: `none` is on to the next item. Returns leave the
method, so they go nowhere. -/
inductive Branch.Goes : Branch Label → List (Value ρ) → Option Label → List (Value ρ) → Prop where
  | taken {test : Test} {target : Label} {stack rest : List (Value ρ)}
      (decided : test.Decides stack true rest) : Goes (.jumpIf test target) stack (some target) rest
  | passed {test : Test} {target : Label} {stack rest : List (Value ρ)}
      (decided : test.Decides stack false rest) : Goes (.jumpIf test target) stack none rest
  | goto {target : Label} {stack : List (Value ρ)} : Goes (.goto target) stack (some target) stack
  | tableSwitch {default target : Label} {low key : Int32} {targets : List Label}
      {rest : List (Value ρ)} (listed : low ≤ key)
      (chosen : targets[(key.toInt - low.toInt).toNat]? = some target) :
      Goes (.tableSwitch default low targets) (.int key :: rest) (some target) rest
  | tableDefault {default : Label} {low key : Int32} {targets : List Label} {rest : List (Value ρ)}
      (outside : key < low ∨ targets[(key.toInt - low.toInt).toNat]? = none) :
      Goes (.tableSwitch default low targets) (.int key :: rest) (some default) rest
  | lookupSwitch {default target : Label} {key : Int32} {cases : List (Int32 × Label)}
      {rest : List (Value ρ)} (chosen : cases.lookup key = some target) :
      Goes (.lookupSwitch default cases) (.int key :: rest) (some target) rest
  | lookupDefault {default : Label} {key : Int32} {cases : List (Int32 × Label)}
      {rest : List (Value ρ)} (outside : cases.lookup key = none) :
      Goes (.lookupSwitch default cases) (.int key :: rest) (some default) rest

/-- A branch only goes to its targets. -/
theorem Branch.Goes.mem_targets {jump : Branch Label} {stack rest : List (Value ρ)}
    {target : Label} (goes : jump.Goes stack (some target) rest) : target ∈ jump.targets := by
  cases goes with
  | taken | goto | tableDefault | lookupDefault => exact List.mem_cons_self
  | tableSwitch _ chosen => exact List.mem_cons_of_mem _ (List.mem_of_getElem? chosen)
  | lookupSwitch chosen =>
    obtain ⟨before, after, rfl, -⟩ := List.lookup_eq_some_iff.mp chosen
    simp [Branch.targets]

/-- Where control is, and all that items can change. -/
structure MachineState (ρ η : Type) where
  position : Nat
  store : Store ρ η

/-- How control gets to an item. -/
inductive Passage where
  /-- From the item before, or from the caller. -/
  | onward
  /-- By a jump or an exception. -/
  | leap
  deriving DecidableEq

/-- A stop on the way through a body. -/
structure Visit (ρ η : Type) where
  passage : Passage
  state : MachineState ρ η

namespace Body

/-- Exceptions of the code at a position go to the first handler that is in charge of them. -/
def Catches (body : Body) (runtime : Runtime ρ η) (position : Nat) (exception : ρ) (heap : η)
    (handler : Handler) : Prop :=
  let takes (handler : Handler) : Prop := body.Protects handler position ∧
    handler.catchType.all (runtime.isCaught heap exception) = true
  ∃ earlier later, body.handlers = earlier ++ handler :: later ∧ takes handler ∧
    ∀ other ∈ earlier, ¬ takes other

/-- From one state, control gets to the next visit. -/
inductive Step (body : Body) (runtime : Runtime ρ η) : MachineState ρ η → Visit ρ η → Prop where
  | mark {position : Nat} {item : Item} {store : Store ρ η}
      (found : body.items[position]? = some item) (mark : item.isCode = false) :
      Step body runtime ⟨position, store⟩ ⟨.onward, position + 1, store⟩
  | instruction {position : Nat} {step : SymInstruction} {before after : Store ρ η}
      (found : body.items[position]? = some (.instruction step))
      (done : runtime.Completes step before after) :
      Step body runtime ⟨position, before⟩ ⟨.onward, position + 1, after⟩
  | pass {position : Nat} {jump : Branch Label} {store : Store ρ η} {rest : List (Value ρ)}
      (found : body.items[position]? = some (.branch jump))
      (goes : jump.Goes store.stack none rest) :
      Step body runtime ⟨position, store⟩ ⟨.onward, position + 1, { store with stack := rest }⟩
  | jump {position target : Nat} {jump : Branch Label} {label : Label} {store : Store ρ η}
      {rest : List (Value ρ)} (found : body.items[position]? = some (.branch jump))
      (goes : jump.Goes store.stack (some label) rest) (placed : body.LabelAt label target) :
      Step body runtime ⟨position, store⟩ ⟨.leap, target, { store with stack := rest }⟩
  | exception {position target : Nat} {item : Item} {store : Store ρ η} {exception : ρ} {heap : η}
      {handler : Handler} (found : body.items[position]? = some item)
      (thrown : runtime.Throws item store exception heap)
      (caught : body.Catches runtime position exception heap handler)
      (placed : body.LabelAt handler.target target) :
      Step body runtime ⟨position, store⟩
        ⟨.leap, target, [.reference (some exception)], store.locals, heap⟩

variable {body : Body} {runtime : Runtime ρ η} {position : Nat} {next : Visit ρ η}

theorem step_mark_iff {item : Item} {store : Store ρ η}
    (found : body.items[position]? = some item) (mark : item.isCode = false) :
    body.Step runtime ⟨position, store⟩ next ↔ next = ⟨.onward, position + 1, store⟩ := by
  constructor
  · intro step
    cases step with
    | mark => rfl
    | instruction same | pass same | jump same =>
      cases Option.some.inj (same.symm.trans found)
      cases mark
    | exception same thrown =>
      cases Option.some.inj (same.symm.trans found)
      cases item with
      | label | line => exact thrown.2.elim
      | instruction | branch => cases mark
  · rintro rfl
    exact .mark found mark

theorem step_instruction_cases {step : SymInstruction} {before : Store ρ η}
    (found : body.items[position]? = some (.instruction step))
    (leads : body.Step runtime ⟨position, before⟩ next) :
    (∃ after, runtime.Completes step before after ∧ next = ⟨.onward, position + 1, after⟩) ∨
      next.passage = .leap ∧ ∃ exception heap,
        runtime.Throws (.instruction step) before exception heap := by
  cases leads with
  | mark same mark =>
    cases Option.some.inj (same.symm.trans found)
    cases mark
  | instruction same completes =>
    cases Option.some.inj (same.symm.trans found)
    exact .inl ⟨_, completes, rfl⟩
  | pass same | jump same => cases Option.some.inj (same.symm.trans found)
  | exception same thrown =>
    cases Option.some.inj (same.symm.trans found)
    exact .inr ⟨rfl, _, _, thrown⟩

/-- An instruction that is known, and can complete in one way only, leads on. -/
theorem step_instruction_iff {step : SymInstruction} {before after : Store ρ η}
    (found : body.items[position]? = some (.instruction step)) (known : runtime.knows step = true)
    (done : ∀ other, runtime.Completes step before other ↔ other = after) :
    body.Step runtime ⟨position, before⟩ next ↔ next = ⟨.onward, position + 1, after⟩ := by
  constructor
  · intro leads
    rcases step_instruction_cases found leads with ⟨other, completes, rfl⟩ | ⟨-, _, _, thrown⟩
    · rw [(done other).mp completes]
    · exact (thrown.2 known after ((done after).mpr rfl)).elim
  · rintro rfl
    exact .instruction found ((done after).mpr rfl)

/-- A jump that is taken leads to its target. -/
theorem step_taken_iff {test : Test} {label : Label} {target : Nat} {store : Store ρ η}
    {rest : List (Value ρ)} (found : body.items[position]? = some (.branch (.jumpIf test label)))
    (decides : ∀ answer other, test.Decides store.stack answer other ↔
      answer = true ∧ other = rest)
    (placed : ∀ place, body.LabelAt label place ↔ place = target) :
    body.Step runtime ⟨position, store⟩ next ↔
      next = ⟨.leap, target, { store with stack := rest }⟩ := by
  constructor
  · intro leads
    cases leads with
    | mark same mark =>
      cases Option.some.inj (same.symm.trans found)
      cases mark
    | instruction same => cases Option.some.inj (same.symm.trans found)
    | pass same goes =>
      cases Option.some.inj (same.symm.trans found)
      cases goes with
      | passed decided => cases ((decides _ _).mp decided).1
    | jump same goes here =>
      cases Option.some.inj (same.symm.trans found)
      cases goes with
      | taken decided =>
        obtain ⟨-, rfl⟩ := (decides _ _).mp decided
        rw [(placed _).mp here]
    | exception same thrown =>
      cases Option.some.inj (same.symm.trans found)
      exact thrown.2.elim
  · rintro rfl
    exact .jump found (.taken ((decides _ _).mpr ⟨rfl, rfl⟩)) ((placed _).mpr rfl)

/-- The visits of a run that is under way, which starts at the first item. -/
inductive Runs (body : Body) (runtime : Runtime ρ η) (store : Store ρ η) :
    List (Visit ρ η) → Prop where
  | enter : Runs body runtime store [⟨.onward, 0, store⟩]
  | step {visits : List (Visit ρ η)} {last next : Visit ρ η}
      (earlier : Runs body runtime store (visits ++ [last]))
      (step : body.Step runtime last.state next) :
      Runs body runtime store (visits ++ [last] ++ [next])

end Body

end ClassWeave
