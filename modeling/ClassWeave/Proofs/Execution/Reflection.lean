import Mathlib
import ClassWeave.Proofs.Execution.Machine
import ClassWeave.Proofs.Execution.Platform

/-!
# A machine for reflective calls

What instructions that follow each other do, as far as it takes to call a method by reflection: an
operand stack of whole values, and a heap of wrappers and arrays. An instruction that does not fit the
values on the stack does not run, so none takes a value of two slots apart.
-/

namespace ClassWeave

namespace Value

variable {ρ : Type}

/-- Does the value take two slots? -/
def isWide : Value ρ → Bool
  | long _ | double _ => true
  | _ => false

/-- Is this a value of the type, as far as the stack tells types apart? -/
def hasType : Value ρ → FieldType → Bool
  | int _, .base .boolean | int _, .base .byte | int _, .base .char | int _, .base .short
  | int _, .base .int => true
  | long _, .base .long => true
  | float _, .base .float => true
  | double _, .base .double => true
  | reference _, .ref _ => true
  | _, _ => false

/-- Are there as many values as types, each of its own? -/
abbrev HaveTypes (types : List FieldType) (values : List (Value ρ)) : Prop :=
  List.Forall₂ (fun type value => hasType value type = true) types values

theorem isWide_of_hasType {value : Value ρ} {type : FieldType} (typed : value.hasType type = true) :
    value.isWide = (ValueMarshal.of type).isWide := by
  cases type with
  | ref type => cases value <;> first | rfl | cases typed
  | base type => cases value <;> cases type <;> first | rfl | cases typed

end Value

/-- Moves whole values about, if they have the widths that one of the forms of the instruction asks
for. -/
def StackOp.rearrange {ρ : Type} (op : StackOp) (stack : List (Value ρ)) :
    Option (List (Value ρ)) :=
  match op, stack with
  | .pop, a :: rest => if a.isWide then none else some rest
  | .pop2, a :: rest =>
    if a.isWide then some rest
    else
      match rest with
      | b :: rest => if b.isWide then none else some rest
      | [] => none
  | .dup, a :: rest => if a.isWide then none else some (a :: a :: rest)
  | .dupX1, a :: b :: rest => if a.isWide || b.isWide then none else some (a :: b :: a :: rest)
  | .dupX2, a :: b :: rest =>
    if a.isWide then none
    else if b.isWide then some (a :: b :: a :: rest)
    else
      match rest with
      | c :: rest => if c.isWide then none else some (a :: b :: c :: a :: rest)
      | [] => none
  | .dup2, a :: rest =>
    if a.isWide then some (a :: a :: rest)
    else
      match rest with
      | b :: rest => if b.isWide then none else some (a :: b :: a :: b :: rest)
      | [] => none
  | .dup2X1, a :: b :: rest =>
    if b.isWide then none
    else if a.isWide then some (a :: b :: a :: rest)
    else
      match rest with
      | c :: rest => if c.isWide then none else some (a :: b :: c :: a :: b :: rest)
      | [] => none
  | .dup2X2, a :: b :: rest =>
    if a.isWide then
      if b.isWide then some (a :: b :: a :: rest)
      else
        match rest with
        | c :: rest => if c.isWide then none else some (a :: b :: c :: a :: rest)
        | [] => none
    else if b.isWide then none
    else
      match rest with
      | c :: rest =>
        if c.isWide then some (a :: b :: c :: a :: b :: rest)
        else
          match rest with
          | d :: rest => if d.isWide then none else some (a :: b :: c :: d :: a :: b :: rest)
          | [] => none
      | [] => none
  | .swap, a :: b :: rest => if a.isWide || b.isWide then none else some (b :: a :: rest)
  | _, _ => none

/-- The slots of a value, of which a wide one has two. -/
def Value.slots {ρ : Type} (value : Value ρ) : List (Value ρ × Fin 2) :=
  if value.isWide then [(value, 0), (value, 1)] else [(value, 0)]

/-- Moves slots about, whatever values they belong to. -/
def StackOp.moveSlots {α : Type} (op : StackOp) (slots : List α) : Option (List α) :=
  match op, slots with
  | .pop, _ :: rest | .pop2, _ :: _ :: rest => some rest
  | .dup, a :: rest => some (a :: a :: rest)
  | .dupX1, a :: b :: rest => some (a :: b :: a :: rest)
  | .dupX2, a :: b :: c :: rest => some (a :: b :: c :: a :: rest)
  | .dup2, a :: b :: rest => some (a :: b :: a :: b :: rest)
  | .dup2X1, a :: b :: c :: rest => some (a :: b :: c :: a :: b :: rest)
  | .dup2X2, a :: b :: c :: d :: rest => some (a :: b :: c :: d :: a :: b :: rest)
  | .swap, a :: b :: rest => some (b :: a :: rest)
  | _, _ => none

namespace StackOp

/-- Moving the slots of whole values moves the values. -/
theorem moveSlots_slots {ρ : Type} {op : StackOp} {stack after : List (Value ρ)}
    (moved : op.rearrange stack = some after) :
    op.moveSlots (stack.flatMap Value.slots) = some (after.flatMap Value.slots) := by
  unfold rearrange at moved
  repeat' split at moved
  all_goals cases moved
  all_goals simp_all [Value.slots, moveSlots]

variable {ρ : Type} {a b c : Value ρ} {rest : List (Value ρ)}

attribute [local simp] rearrange

theorem rearrange_pop (narrow : a.isWide = false) : rearrange .pop (a :: rest) = some rest := by
  simp [narrow]

theorem rearrange_dupX1 (first : a.isWide = false) (second : b.isWide = false) :
    rearrange .dupX1 (a :: b :: rest) = some (a :: b :: a :: rest) := by
  simp [first, second]

theorem rearrange_dupX2 (first : a.isWide = false) (second : b.isWide = false)
    (third : c.isWide = false) :
    rearrange .dupX2 (a :: b :: c :: rest) = some (a :: b :: c :: a :: rest) := by
  simp [first, second, third]

theorem rearrange_dupX2_wide (first : a.isWide = false) (second : b.isWide = true) :
    rearrange .dupX2 (a :: b :: rest) = some (a :: b :: a :: rest) := by
  simp [first, second]

theorem rearrange_swap (first : a.isWide = false) (second : b.isWide = false) :
    rearrange .swap (a :: b :: rest) = some (b :: a :: rest) := by
  simp [first, second]

end StackOp

def SmallConstant.value {ρ : Type} : SmallConstant → Value ρ
  | null => .reference none
  | minusOne => .int (-1)
  | int0 => .int 0
  | int1 => .int 1
  | int2 => .int 2
  | int3 => .int 3
  | int4 => .int 4
  | int5 => .int 5
  | long0 => .long 0
  | long1 => .long 1
  | float0 => .float 0
  | float1 => .float 0x3F800000
  | float2 => .float 0x40000000
  | double0 => .double 0
  | double1 => .double 0x3FF0000000000000

/-- What there can be on the heap. Objects are known by their places, and no place is `null`. -/
inductive HeapObject where
  /-- A wrapper. -/
  | box (type : BaseType) (value : Value Nat)
  /-- An array of objects. -/
  | array (elements : List (Option Nat))
  | other (type : RefType)

def HeapObject.type : HeapObject → RefType
  | box type _ => .object (Platform.wrapper type)
  | array _ => .arrayOf (.object Platform.object)
  | other type => type

abbrev Heap := List HeapObject

/-- What a reflective call meets on the machine. -/
structure Reflection where
  static : FieldRef → Option (Value Nat)
  isSubtype : (sub sup : RefType) → Bool
  /-- The answer to calling a method on an object with an array of arguments, and the heap after the
  call. -/
  invoke : Heap → (method object array : Option Nat) → Option (Option Nat × Heap)

structure CallState where
  stack : List (Value Nat)
  heap : Heap

namespace CallState

def push (state : CallState) (value : Value Nat) : CallState :=
  { state with stack := value :: state.stack }

/-- Pushes a new object. -/
def allocate (state : CallState) (object : HeapObject) : CallState :=
  ⟨.reference (some state.heap.length) :: state.stack, state.heap ++ [object]⟩

/-- Puts an array of as many objects as the number on the stack says in its place. -/
def newArray (state : CallState) (element : RefType) : Option CallState :=
  match state.stack with
  | .int size :: rest =>
    if 0 ≤ size ∧ element = .object Platform.object then
      some (allocate { state with stack := rest } (.array (.replicate size.toNatClampNeg none)))
    else none
  | _ => none

/-- Puts the object on the stack into the array below it, at the index in between. -/
def storeElement (state : CallState) : Option CallState :=
  match state.stack with
  | .reference object :: .int index :: .reference (some array) :: rest =>
    match state.heap[array]? with
    | some (.array elements) =>
      if 0 ≤ index ∧ index.toNatClampNeg < elements.length then
        some ⟨rest, state.heap.set array (.array (elements.set index.toNatClampNeg object))⟩
      else none
    | _ => none
  | _ => none

/-- Puts a wrapper in the place of a primitive. -/
def wrap (state : CallState) (type : BaseType) : Option CallState :=
  match state.stack with
  | value :: rest =>
    if value.hasType (.base type) then some (allocate { state with stack := rest } (.box type value))
    else none
  | [] => none

/-- Puts the primitive in the place of its wrapper. -/
def unwrap (state : CallState) (type : BaseType) : Option CallState :=
  match state.stack with
  | .reference (some object) :: rest =>
    match state.heap[object]? with
    | some (.box boxed value) => if boxed = type then some ⟨value :: rest, state.heap⟩ else none
    | _ => none
  | _ => none

end CallState

namespace Reflection

variable (runtime : Reflection)

/-- Is an object of the type? Every type has `null`. -/
def isInstance (heap : Heap) (type : RefType) : Option Nat → Bool
  | none => true
  | some place =>
    match heap[place]? with
    | some object => object.type = type || runtime.isSubtype object.type type
    | none => false

def checkCast (state : CallState) (type : RefType) : Option CallState :=
  match state.stack with
  | .reference object :: _ => if runtime.isInstance state.heap type object then some state else none
  | _ => none

def call (state : CallState) : Option CallState :=
  match state.stack with
  | .reference array :: .reference object :: .reference method :: rest =>
    (runtime.invoke state.heap method object array).map fun (answer, heap) =>
      ⟨.reference answer :: rest, heap⟩
  | _ => none

/-- What an instruction does. Those that no reflective call needs do not run. -/
def step (state : CallState) : SymInstruction → Option CallState
  | .plain (.push constant) => some (state.push constant.value)
  | .pushByte number => some (state.push (.int number.toInt32))
  | .pushShort number => some (state.push (.int number.toInt32))
  | .loadConstant (.int number) => some (state.push (.int number))
  | .plain (.stack op) => (op.rearrange state.stack).map ({ state with stack := · })
  | .plain (.arrayStore .reference) => state.storeElement
  | .onClass .newArray element => state.newArray element
  | .onClass .checkCast type => runtime.checkCast state type
  | .field .getStatic field => (runtime.static field).map state.push
  | .invoke .static method =>
    (Platform.primitives.find? (Platform.wrap · = method)).bind state.wrap
  | .invoke .virtual method =>
    if method = Platform.invoke then runtime.call state
    else (Platform.primitives.find? (Platform.unwrap · = method)).bind state.unwrap
  | _ => none

/-- Runs instructions one after the other. -/
def run (state : CallState) (instructions : List SymInstruction) : Option CallState :=
  instructions.foldlM runtime.step state

variable {runtime : Reflection} {state : CallState}

theorem run_cons (instruction : SymInstruction) (rest : List SymInstruction) :
    runtime.run state (instruction :: rest) =
      (runtime.step state instruction).bind (runtime.run · rest) := rfl

theorem run_append (first second : List SymInstruction) :
    runtime.run state (first ++ second) =
      (runtime.run state first).bind (runtime.run · second) := List.foldlM_append

theorem run_step {instruction : SymInstruction} {rest : List SymInstruction} {next : CallState}
    (done : runtime.step state instruction = some next) :
    runtime.run state (instruction :: rest) = runtime.run next rest := by
  rw [run_cons, done]
  rfl

theorem step_stack {op : StackOp} {stack after : List (Value Nat)} {heap : Heap}
    (moved : op.rearrange stack = some after) :
    runtime.step ⟨stack, heap⟩ (.plain (.stack op)) = some ⟨after, heap⟩ := by
  rw [step, moved]
  rfl

theorem step_newArray {size : Int32} {rest : List (Value Nat)} {heap : Heap} (whole : 0 ≤ size) :
    runtime.step ⟨.int size :: rest, heap⟩ (.onClass .newArray (.object .object)) =
      some ⟨.reference (some heap.length) :: rest,
        heap ++ [.array (.replicate size.toNatClampNeg none)]⟩ := if_pos ⟨whole, rfl⟩

theorem step_checkCast {object : Option Nat} {type : RefType} {rest : List (Value Nat)} {heap : Heap}
    (fits : runtime.isInstance heap type object = true) :
    runtime.step ⟨.reference object :: rest, heap⟩ (.onClass .checkCast type) =
      some ⟨.reference object :: rest, heap⟩ := if_pos fits

theorem step_getStatic {field : FieldRef} {value : Value Nat}
    (holds : runtime.static field = some value) :
    runtime.step state (.field .getStatic field) = some (state.push value) := by
  rw [step, holds]
  rfl

/-- The call that wraps a value of a type is the one that the platform has for it. -/
theorem step_boxing (type : BaseType) :
    runtime.step state (.invoke .static
        (.ofClass type.boxClass .valueOf [.base type] (some (.object type.boxClass)))) =
      state.wrap type := by
  cases type <;> rfl

/-- So is the call that gets the value back. -/
theorem step_unboxing (type : BaseType) :
    runtime.step state (.invoke .virtual
        (.ofClass type.boxClass type.unboxMethod [] (some (.base type)))) = state.unwrap type := by
  cases type <;> rfl

theorem step_invoke {array object method answer : Option Nat} {rest : List (Value Nat)}
    {heap later : Heap}
    (invoked : runtime.invoke heap method object array = some (answer, later)) :
    runtime.step ⟨.reference array :: .reference object :: .reference method :: rest, heap⟩
      (.invoke .virtual Platform.invoke) = some ⟨.reference answer :: rest, later⟩ := by
  rw [step, if_pos rfl, call]
  simp only [invoked, Option.map_some]

/-- A run over the instructions takes no value of two slots apart: each rearrangement of the stack
is what it is slot by slot, whatever the slots belong to, and leaves the slots of whole values. -/
def MovesWhole (runtime : Reflection) (start : CallState) (instructions : List SymInstruction) :
    Prop :=
  ∀ earlier op later, instructions = earlier ++ .plain (.stack op) :: later →
    ∃ before after, runtime.run start earlier = some before ∧
      runtime.run start (earlier ++ [.plain (.stack op)]) = some after ∧
      op.moveSlots (before.stack.flatMap Value.slots) = some (after.stack.flatMap Value.slots)

/-- No run takes values apart. -/
theorem run_movesWhole {start last : CallState} {instructions : List SymInstruction}
    (ran : runtime.run start instructions = some last) : runtime.MovesWhole start instructions := by
  rintro earlier op later rfl
  rw [run_append, Option.bind_eq_some_iff] at ran
  obtain ⟨before, reached, onward⟩ := ran
  rw [run_cons, Option.bind_eq_some_iff] at onward
  obtain ⟨after, stepped, -⟩ := onward
  obtain ⟨stack, moved, rfl⟩ := Option.map_eq_some_iff.mp stepped
  refine ⟨before, { before with stack := stack }, reached, ?_, StackOp.moveSlots_slots moved⟩
  rw [run_append, reached, Option.bind_some, run_step stepped]
  rfl

end Reflection

end ClassWeave
