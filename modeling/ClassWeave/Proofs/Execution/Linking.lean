import Mathlib.Logic.Function.Basic
import ClassWeave.Hook.Initializer
import ClassWeave.Proofs.Execution.Reflection

/-!
# A machine for looking up methods

What instructions that follow each other do, as far as it takes to find a class and one of its
methods: constants that stand for objects, static fields, arrays of any class, and calls that the
runtime answers. An instruction that does not fit the values on the stack does not run, and neither
does a call that throws.
-/

namespace ClassWeave

/-- What there can be on the heap. Objects are known by their places, and no place stands for `null`. -/
inductive LinkObject where
  | array (element : RefType) (elements : List (Option Nat))
  | other (type : RefType)
  deriving DecidableEq

def LinkObject.type : LinkObject → RefType
  | array element _ => .arrayOf (.ref element)
  | other type => type

/-- What calls can change. -/
structure World where
  heap : List LinkObject
  statics : FieldRef → Value Nat

namespace World

/-- Adds an object behind the others. -/
def add (world : World) (object : LinkObject) : World :=
  { world with heap := world.heap ++ [object] }

def put (world : World) (field : FieldRef) (value : Value Nat) : World :=
  { world with statics := Function.update world.statics field value }

theorem put_self (world : World) (field : FieldRef) (value : Value Nat) :
    (world.put field value).statics field = value := Function.update_self ..

theorem put_ne {world : World} {field other : FieldRef} (different : other ≠ field)
    (value : Value Nat) : (world.put field value).statics other = world.statics other :=
  Function.update_of_ne different ..

end World

structure LinkState where
  stack : List (Value Nat)
  locals : UInt16 → Value Nat
  world : World

namespace LinkState

def push (state : LinkState) (value : Value Nat) : LinkState :=
  { state with stack := value :: state.stack }

/-- Puts an array of as many objects as the number on the stack says in its place. -/
def newArray (state : LinkState) (element : RefType) : Option LinkState :=
  match state.stack with
  | .int size :: rest =>
    if 0 ≤ size then
      some ⟨.reference (some state.world.heap.length) :: rest, state.locals,
        state.world.add (.array element (.replicate size.toNatClampNeg none))⟩
    else none
  | _ => none

/-- Moves the value on top of the stack into a field of its type. -/
def putStatic (state : LinkState) (field : FieldRef) : Option LinkState :=
  match state.stack with
  | value :: rest =>
    if value.hasType field.type then some ⟨rest, state.locals, state.world.put field value⟩
    else none
  | [] => none

end LinkState

/-- Takes values of given types off a stack, the first one from the top. -/
def Value.popAll : List FieldType → List (Value Nat) → Option (List (Value Nat) × List (Value Nat))
  | [], stack => some ([], stack)
  | type :: types, value :: stack =>
    if value.hasType type then
      (popAll types stack).map fun (values, rest) => (value :: values, rest)
    else none
  | _ :: _, [] => none

/-- What instructions meet on the machine. -/
structure Linker where
  /-- The object of a text. -/
  text : String → Nat
  /-- The class object that a class constant stands for. -/
  classObject : RefType → Nat
  isSubtype : (sub sup : RefType) → Bool
  /-- The answer to a call with these values, the receiver first, and the world after it. -/
  invoke : World → InvokeKind → MethodRef → List (Value Nat) → Option (Option (Value Nat) × World)

namespace Linker

variable (linker : Linker)

/-- Can the object be in an array of the class? -/
def fits (world : World) (element : RefType) : Option Nat → Bool
  | none => true
  | some place =>
    match world.heap[place]? with
    | some object => object.type = element || linker.isSubtype object.type element
    | none => false

/-- Puts the object on the stack into the array below it, at the index in between. -/
def storeElement (state : LinkState) : Option LinkState :=
  match state.stack with
  | .reference object :: .int index :: .reference (some place) :: rest =>
    match state.world.heap[place]? with
    | some (.array element elements) =>
      if 0 ≤ index ∧ index.toNatClampNeg < elements.length ∧
          linker.fits state.world element object then
        some ⟨rest, state.locals, { state.world with
          heap := state.world.heap.set place
            (.array element (elements.set index.toNatClampNeg object)) }⟩
      else none
    | _ => none
  | _ => none

/-- Calls a method with what is on the stack. There is no receiver if it is static. -/
def call (state : LinkState) (kind : InvokeKind) (method : MethodRef) : Option LinkState := do
  let (given, rest) ← Value.popAll method.descriptor.parameters.reverse state.stack
  match kind, rest with
  | .static, rest =>
    let (answer, world) ← linker.invoke state.world kind method given.reverse
    return ⟨answer.toList ++ rest, state.locals, world⟩
  | _, .reference (some receiver) :: rest =>
    let (answer, world) ← linker.invoke state.world kind method
      (.reference (some receiver) :: given.reverse)
    return ⟨answer.toList ++ rest, state.locals, world⟩
  | _, _ => none

/-- What an instruction does. Those that no lookup needs do not run. -/
def step (state : LinkState) : SymInstruction → Option LinkState
  | .plain (.push constant) => some (state.push constant.value)
  | .pushByte number => some (state.push (.int number.toInt32))
  | .pushShort number => some (state.push (.int number.toInt32))
  | .loadConstant (.int number) => some (state.push (.int number))
  | .loadConstant (.string text) => some (state.push (.reference (some (linker.text text))))
  | .loadConstant (.classRef type) =>
    some (state.push (.reference (some (linker.classObject type))))
  | .plain (.stack op) => (op.rearrange state.stack).map ({ state with stack := · })
  | .plain (.arrayStore .reference) => linker.storeElement state
  | .onClass .newArray element => state.newArray element
  | .field .getStatic field => some (state.push (state.world.statics field))
  | .field .putStatic field => state.putStatic field
  | .invoke kind method => linker.call state kind method
  | _ => none

/-- Runs instructions one after the other. -/
def run (state : LinkState) (instructions : List SymInstruction) : Option LinkState :=
  instructions.foldlM linker.step state

/-- The runtime answers a call with an object. -/
def Answers (before : World) (kind : InvokeKind) (method : MethodRef) (values : List (Value Nat))
    (answer : Nat) (after : World) : Prop :=
  linker.invoke before kind method values = some (some (.reference (some answer)), after)

variable {linker} {stack rest : List (Value Nat)} {locals : UInt16 → Value Nat}
  {world after : World}

theorem run_append {state : LinkState} (first second : List SymInstruction) :
    linker.run state (first ++ second) = (linker.run state first).bind (linker.run · second) :=
  List.foldlM_append

theorem run_step {state next : LinkState} {instruction : SymInstruction}
    {rest : List SymInstruction} (done : linker.step state instruction = some next) :
    linker.run state (instruction :: rest) = linker.run next rest := by
  rw [run, List.foldlM_cons, done]
  rfl

/-- Where one stretch of instructions leads, the next one goes on. -/
theorem run_on {state next : LinkState} {first second : List SymInstruction}
    (done : linker.run state first = some next) :
    linker.run state (first ++ second) = linker.run next second := by
  rw [run_append, done, Option.bind_some]

theorem step_newArray {size : Int32} (whole : 0 ≤ size) (element : RefType) :
    linker.step ⟨.int size :: rest, locals, world⟩ (.onClass .newArray element) =
      some ⟨.reference (some world.heap.length) :: rest, locals,
        world.add (.array element (.replicate size.toNatClampNeg none))⟩ := if_pos whole

theorem step_putStatic {field : FieldRef} {value : Value Nat}
    (typed : value.hasType field.type = true) :
    linker.step ⟨value :: rest, locals, world⟩ (.field .putStatic field) =
      some ⟨rest, locals, world.put field value⟩ := if_pos typed

theorem step_arrayStore {element : RefType} {elements : List (Option Nat)} {object : Option Nat}
    {index : Int32} {place : Nat} (isArray : world.heap[place]? = some (.array element elements))
    (whole : 0 ≤ index) (inside : index.toNatClampNeg < elements.length)
    (fits : linker.fits world element object = true) :
    linker.step ⟨.reference object :: .int index :: .reference (some place) :: rest, locals, world⟩
        (.plain (.arrayStore .reference)) =
      some ⟨rest, locals, { world with
        heap := world.heap.set place
          (.array element (elements.set index.toNatClampNeg object)) }⟩ := by
  simp only [step, storeElement, isArray]
  exact if_pos ⟨whole, inside, fits⟩

theorem step_static {method : MethodRef} {given : List (Value Nat)} {answer : Nat}
    (taken : Value.popAll method.descriptor.parameters.reverse stack = some (given, rest))
    (answers : linker.Answers world .static method given.reverse answer after) :
    linker.step ⟨stack, locals, world⟩ (.invoke .static method) =
      some ⟨.reference (some answer) :: rest, locals, after⟩ := by
  rw [step, call, taken]
  simp only [Option.bind_eq_bind, Option.bind_some]
  rw [answers]
  rfl

theorem step_receiver {kind : InvokeKind} {method : MethodRef} {given : List (Value Nat)}
    {receiver answer : Nat} (hasReceiver : kind ≠ .static)
    (taken : Value.popAll method.descriptor.parameters.reverse stack =
      some (given, .reference (some receiver) :: rest))
    (answers : linker.Answers world kind method
      (.reference (some receiver) :: given.reverse) answer after) :
    linker.step ⟨stack, locals, world⟩ (.invoke kind method) =
      some ⟨.reference (some answer) :: rest, locals, after⟩ := by
  rw [step, call, taken]
  cases kind with
  | static => exact (hasReceiver rfl).elim
  | _ =>
    simp only [Option.bind_eq_bind, Option.bind_some]
    rw [answers]
    rfl

end Linker

end ClassWeave
