import ClassWeave.Proofs.Typing.Locals
import ClassWeave.Proofs.Typing.Slots

/-!
# Values of two slots stay whole

Frames come from the one on entry by instructions, by branches and by merging, in any order. However
they come about, no value of two slots is cut in half, neither among the locals nor on the stack. So
what such a value is loaded from has not been written since the value was put there.
-/

namespace ClassWeave

/-- How frames come about: on entry, and from others. -/
structure FrameMoves (σ : Type) : Type 1 where
  entry (method : MethodContext) : σ
  execute (thisClass : BinaryName) (item : Nat) (step : SymInstruction) (before after : σ) : Prop
  branch {τ : Type} (result : Option FieldType) (jump : Branch τ) (before after : σ) : Prop
  merge (existing incoming merged : σ) : Prop

/-- The frame is one that the method can have after these instructions, the last one first. Where it
is merged with a frame that came about in another way, either way counts. -/
inductive FrameMoves.Traced {σ : Type} (moves : FrameMoves σ) :
    MethodContext → List SymInstruction → σ → Prop where
  | entry {method : MethodContext} : Traced moves method [] (moves.entry method)
  | execute {method : MethodContext} {steps : List SymInstruction} {before after : σ}
      {thisClass : BinaryName} {item : Nat} {step : SymInstruction}
      (traced : Traced moves method steps before)
      (done : moves.execute thisClass item step before after) :
      Traced moves method (step :: steps) after
  | branch {method : MethodContext} {steps : List SymInstruction} {before after : σ} {τ : Type}
      {result : Option FieldType} {jump : Branch τ} (traced : Traced moves method steps before)
      (done : moves.branch result jump before after) : Traced moves method steps after
  | existing {method other : MethodContext} {steps otherSteps : List SymInstruction}
      {frame incoming merged : σ} (traced : Traced moves method steps frame)
      (otherTraced : Traced moves other otherSteps incoming)
      (found : moves.merge frame incoming merged) : Traced moves method steps merged
  | incoming {method other : MethodContext} {steps otherSteps : List SymInstruction}
      {frame existing merged : σ} (traced : Traced moves method steps frame)
      (otherTraced : Traced moves other otherSteps existing)
      (found : moves.merge existing frame merged) : Traced moves method steps merged

/-- How the frames come about that are inferred. -/
def VFrame.moves : FrameMoves VFrame where
  entry := VFrame.initial
  execute thisClass item step before after := before.execute thisClass item step = .ok after
  branch result jump before after := before.executeBranch result jump = .ok after
  merge existing incoming merged := ∃ (hierarchy : Hierarchy) (item : Nat),
    hierarchy.mergeFrames item existing incoming = .ok merged

/-- The same with stacks that know their slots. Merging builds up a new one. -/
def SlotFrame.moves : FrameMoves SlotFrame where
  entry method := ⟨(VFrame.initial method).locals, .empty⟩
  execute thisClass item step before after := ∃ mirror,
    FrameM.Mirrors (FrameM.instruction thisClass item step) mirror ∧
      mirror before = .ok ((), after)
  branch result jump before after := ∃ mirror,
    FrameM.Mirrors (FrameM.branch result jump) mirror ∧ mirror before = .ok ((), after)
  merge existing incoming merged := ∃ (hierarchy : Hierarchy) (item : Nat) (frame : VFrame),
    hierarchy.mergeFrames item existing.frame incoming.frame = .ok frame ∧
      merged = ⟨frame.locals, SlotStack.empty.pushAll frame.stack.reverse⟩

section Numbering

/-- An action that goes well on a frame goes well on its slots, and the other way round. -/
theorem FrameM.Mirrors.ran {action : FrameM Unit} {mirror : SlotM Unit}
    (mirrors : Mirrors action mirror) {before : SlotFrame} (numbered : before.slots.Numbered)
    {after : VFrame} :
    (do return (← action before.frame).2 : Except TypeFault VFrame) = .ok after ↔
      ∃ state, mirror before = .ok ((), state) ∧ state.frame = after := by
  rw [mirrors.agrees.same numbered]
  constructor
  · intro done
    obtain ⟨_, ran, same⟩ := Outcome.bind_ok.mp done
    obtain ⟨⟨_, state⟩, mirrored, rfl⟩ := Outcome.map_ok.mp ran
    exact ⟨state, mirrored, Outcome.pure_ok.mp same⟩
  · rintro ⟨state, mirrored, rfl⟩
    rw [mirrored]
    rfl

/-- Merged stacks are numbered anew. -/
theorem collect_numbered (stack : List VType) :
    (SlotStack.empty.pushAll stack.reverse).Numbered :=
  SlotStack.empty_numbered.pushAll _

/-- One instruction more. -/
theorem VFrame.traced_execute {method : MethodContext} {steps : List SymInstruction}
    {before after : VFrame} (traced : VFrame.moves.Traced method steps before)
    (thisClass : BinaryName) (item : Nat) (step : SymInstruction)
    (done : before.execute thisClass item step = .ok after) :
    VFrame.moves.Traced method (step :: steps) after :=
  .execute traced done

theorem SlotFrame.frame_collect (frame : VFrame) :
    SlotFrame.frame ⟨frame.locals, SlotStack.empty.pushAll frame.stack.reverse⟩ = frame := by
  rw [SlotFrame.frame, SlotStack.types_collect]

/-- Without their slots, frames come about as they do with them, and the slots are right. -/
theorem SlotFrame.traced {method : MethodContext} {steps : List SymInstruction} {state : SlotFrame}
    (traced : SlotFrame.moves.Traced method steps state) :
    VFrame.moves.Traced method steps state.frame ∧ state.slots.Numbered := by
  induction traced with
  | entry => exact ⟨.entry, SlotStack.empty_numbered⟩
  | execute _ done ih =>
    obtain ⟨mirror, mirrors, ran⟩ := done
    exact ⟨ih.1.execute ((mirrors.ran ih.2).mpr ⟨_, ran, rfl⟩), mirrors.agrees.numbered ih.2 ran⟩
  | branch _ done ih =>
    obtain ⟨mirror, mirrors, ran⟩ := done
    exact ⟨ih.1.branch ((mirrors.ran ih.2).mpr ⟨_, ran, rfl⟩), mirrors.agrees.numbered ih.2 ran⟩
  | existing _ _ found ih other =>
    obtain ⟨hierarchy, item, frame, merged, rfl⟩ := found
    refine ⟨?_, collect_numbered frame.stack⟩
    rw [frame_collect]
    exact ih.1.existing other.1 ⟨hierarchy, item, merged⟩
  | incoming _ _ found ih other =>
    obtain ⟨hierarchy, item, frame, merged, rfl⟩ := found
    refine ⟨?_, collect_numbered frame.stack⟩
    rw [frame_collect]
    exact ih.1.incoming other.1 ⟨hierarchy, item, merged⟩

/-- Every frame that comes about does so with slots. -/
theorem VFrame.traced_slots {method : MethodContext} {steps : List SymInstruction} {frame : VFrame}
    (traced : VFrame.moves.Traced method steps frame) :
    ∃ state, SlotFrame.moves.Traced method steps state ∧ state.frame = frame := by
  induction traced with
  | entry => exact ⟨_, .entry, rfl⟩
  | @execute _ _ _ _ thisClass item step _ done ih =>
    obtain ⟨state, stateTraced, rfl⟩ := ih
    obtain ⟨mirror, mirrors⟩ := FrameM.mirrored_instruction thisClass item step
    obtain ⟨after, ran, same⟩ := (mirrors.ran (SlotFrame.traced stateTraced).2).mp done
    exact ⟨after, stateTraced.execute ⟨mirror, mirrors, ran⟩, same⟩
  | @branch _ _ _ _ _ result jump _ done ih =>
    obtain ⟨state, stateTraced, rfl⟩ := ih
    obtain ⟨mirror, mirrors⟩ := FrameM.mirrored_branch result jump
    obtain ⟨after, ran, same⟩ := (mirrors.ran (SlotFrame.traced stateTraced).2).mp done
    exact ⟨after, stateTraced.branch ⟨mirror, mirrors, ran⟩, same⟩
  | @existing _ _ _ _ _ _ merged _ _ found ih other =>
    obtain ⟨state, stateTraced, rfl⟩ := ih
    obtain ⟨otherState, otherTraced, rfl⟩ := other
    obtain ⟨hierarchy, item, mergedFound⟩ := found
    exact ⟨_, stateTraced.existing otherTraced ⟨hierarchy, item, merged, mergedFound, rfl⟩,
      SlotFrame.frame_collect merged⟩
  | @incoming _ _ _ _ _ _ merged _ _ found ih other =>
    obtain ⟨state, stateTraced, rfl⟩ := ih
    obtain ⟨otherState, otherTraced, rfl⟩ := other
    obtain ⟨hierarchy, item, mergedFound⟩ := found
    exact ⟨_, stateTraced.incoming otherTraced ⟨hierarchy, item, merged, mergedFound, rfl⟩,
      SlotFrame.frame_collect merged⟩

/-- The free slot is where the stack ends. -/
theorem SlotStack.widthOf_entries (slots : SlotStack) (locals : List VType) :
    widthOf slots.entries = VFrame.depth ⟨locals, slots.types⟩ := by
  rw [VFrame.depth, types, List.foldr_map, widthOf]

end Numbering

section Locals

variable {before after : VFrame} {type : VType} {slot : Nat}

/-- Does the instruction store into this slot? -/
def Instruction.writes (slot : Nat) : SymInstruction → Bool
  | .store kind start => start.toNat ≤ slot && slot < start.toNat + kind.width
  | _ => false

/-- A store leaves a value of two slots whole, or it is a store of that value. -/
theorem FrameM.store_wide {kind : SlotKind} {start : UInt16}
    (done : store kind start before = .ok ((), after)) (wide : type.width = 2)
    (holds : after.locals.getD slot .top = type) :
    kind.primitive? = some type ∧ start.toNat = slot ∨
      before.locals.getD slot .top = type ∧
        Instruction.writes slot (.store kind start) = false ∧
        Instruction.writes (slot + 1) (.store kind start) = false := by
  obtain ⟨stored, rest, loads, -, rfl⟩ := store_ok done
  have notTop : type ≠ .top := by
    rintro rfl
    cases wide
  rw [storeLocal_getD] at holds
  by_cases here : slot = start.toNat
  · rw [if_pos here] at holds
    subst holds
    refine .inl ⟨loads.resolve_right fun other => ?_, here.symm⟩
    have single := VType.width_of_isReference other.2
    omega
  · have widths := stored.width_eq
    simp only [Instruction.writes, Bool.and_eq_false_iff, decide_eq_false_iff_not, ← loads.width_eq]
    grind

theorem VFrame.execute_localsStep {thisClass : BinaryName} {item : Nat} {step : SymInstruction}
    (done : before.execute thisClass item step = .ok after) :
    LocalsStep (.instruction step) before.locals after.locals :=
  -- of the method, only the class matters to the locals
  @FlowGraph.after_localsStep ⟨thisClass, .init, ⟨[], none⟩, true⟩ item _ before after done

/-- A value of two slots that is in the locals after an instruction has just been stored, or was
there before and has been left alone. -/
theorem VFrame.execute_wide {thisClass : BinaryName} {item : Nat} {step : SymInstruction}
    (done : before.execute thisClass item step = .ok after) (wide : type.width = 2)
    (holds : after.locals.getD slot .top = type) :
    (∃ kind start, step = .store kind start ∧ kind.primitive? = some type ∧ start.toNat = slot) ∨
      before.locals.getD slot .top = type ∧ step.writes slot = false ∧
        step.writes (slot + 1) = false := by
  by_cases isStore : ∃ kind start, step = .store kind start
  · obtain ⟨kind, start, rfl⟩ := isStore
    exact (FrameM.store_wide (VFrame.execute_ok.mp done) wide holds).imp_left fun both => ⟨kind, start, rfl, both⟩
  · have reads (index : Nat) : step.writes index = false := by
      unfold Instruction.writes
      split
      · rename_i kind start
        exact (isStore ⟨kind, start, rfl⟩).elim
      · rfl
    refine .inr ⟨?_, reads slot, reads (slot + 1)⟩
    have change := VFrame.execute_localsStep done
    generalize after.locals = locals at change holds
    cases change with
    | kept => exact holds
    | stored isStep =>
      cases isStep
      exact (isStore ⟨_, _, rfl⟩).elim
    | @initialized old new oldReference newReference =>
      rw [getD_initialized oldReference] at holds
      have width := VType.width_of_isReference newReference
      unfold FrameM.replaced at holds
      split at holds
      · rw [← holds] at wide
        omega
      · exact holds

/-- A value of two slots that is in merged locals was in both that they come from. -/
theorem Hierarchy.mergeFrames_wide {hierarchy : Hierarchy} {item : Nat}
    {existing incoming merged : VFrame}
    (found : hierarchy.mergeFrames item existing incoming = .ok merged) (wide : type.width = 2)
    (holds : merged.locals.getD slot .top = type) :
    existing.locals.getD slot .top = type ∧ incoming.locals.getD slot .top = type := by
  subst holds
  have usable : merged.locals.getD slot .top ≠ .top := by
    intro isTop
    rw [isTop] at wide
    cases wide
  have each {a b merged : VType} (found : hierarchy.mergeTypes a b = .ok (some merged)) :
      (merged.width = 2 → a = merged) ∧ (merged.width = 2 → b = merged) :=
    ⟨fun wide => (mergeTypes_wide found wide).1.symm,
      fun wide => (mergeTypes_wide found wide).2.symm⟩
  obtain ⟨left, right⟩ := (mergeFrames_each each found).2 slot
  exact ⟨(left.resolve_left usable) wide, (right.resolve_left usable) wide⟩

/-- What puts a value into a slot: the last instruction that wrote the slot or the one after it
stored the value there, or none did and the value was there on entry. -/
def PutLast (method : MethodContext) (steps : List SymInstruction) (type : VType) (slot : Nat) :
    Prop :=
  ∃ later earlier, steps = later ++ earlier ∧
    (∀ step ∈ later, step.writes slot = false ∧ step.writes (slot + 1) = false) ∧
    ((∃ kind start rest, earlier = .store kind start :: rest ∧ kind.primitive? = some type ∧
        start.toNat = slot) ∨
      earlier = [] ∧ (VFrame.initial method).locals[slot]? = some type)

theorem PutLast.cons {method : MethodContext} {steps : List SymInstruction} {step : SymInstruction}
    (put : PutLast method steps type slot) (first : step.writes slot = false)
    (second : step.writes (slot + 1) = false) : PutLast method (step :: steps) type slot := by
  obtain ⟨later, earlier, rfl, spared, source⟩ := put
  exact ⟨step :: later, earlier, rfl, List.forall_mem_cons.mpr ⟨⟨first, second⟩, spared⟩, source⟩

variable {method : MethodContext} {steps : List SymInstruction} {frame : VFrame}

/-- However a frame comes about, its locals leave two slots for what takes two. -/
theorem VFrame.traced_spaced (traced : VFrame.moves.Traced method steps frame) :
    Spaced frame.locals := by
  have merges {hierarchy : Hierarchy} {item : Nat} {existing incoming merged : VFrame}
      (found : hierarchy.mergeFrames item existing incoming = .ok merged) :
      Spaced merged.locals :=
    (Hierarchy.mergeLocals_spaced (Hierarchy.mergeFrames_parts found).2).2
  induction traced with
  | entry => exact initial_spaced _
  | @execute _ _ _ after _ _ _ _ done ih =>
    exact (spaced_upheld ⟨fun a _ => .ok a⟩ after.locals.length).after (execute_localsStep done)
      (Nat.le_refl _) ih
  | branch _ done ih =>
    rwa [FrameM.keeps_branch _ _ (executeBranch_ok.mp done)]
  | existing _ _ found => exact merges found.choose_spec.choose_spec
  | incoming _ _ found => exact merges found.choose_spec.choose_spec

/-- A value of two slots is where it was put last. -/
theorem VFrame.traced_putLast (traced : VFrame.moves.Traced method steps frame)
    (wide : type.width = 2) (holds : frame.locals.getD slot .top = type) :
    PutLast method steps type slot := by
  have usable : type ≠ .top := by
    rintro rfl
    cases wide
  induction traced with
  | entry =>
    exact ⟨[], [], rfl, List.forall_mem_nil _, .inr ⟨rfl, getElem?_of_getD usable holds⟩⟩
  | @execute _ steps _ _ _ _ step _ done ih =>
    rcases execute_wide done wide holds with ⟨kind, start, rfl, primitive, here⟩ |
      ⟨before, first, second⟩
    · exact ⟨[], .store kind start :: steps, rfl, List.forall_mem_nil _,
        .inl ⟨kind, start, steps, rfl, primitive, here⟩⟩
    · exact (ih before).cons first second
  | branch _ done ih =>
    rw [FrameM.keeps_branch _ _ (executeBranch_ok.mp done)] at holds
    exact ih holds
  | existing _ _ found ih =>
    obtain ⟨hierarchy, item, merged⟩ := found
    exact ih (Hierarchy.mergeFrames_wide merged wide holds).1
  | incoming _ _ found ih =>
    obtain ⟨hierarchy, item, merged⟩ := found
    exact ih (Hierarchy.mergeFrames_wide merged wide holds).2

/-- What a value of two slots is loaded from holds it. -/
theorem VFrame.execute_load {thisClass : BinaryName} {item : Nat} {kind : SlotKind} {start : UInt16}
    {after : VFrame} (primitive : kind.primitive? = some type)
    (done : frame.execute thisClass item (.load kind start) = .ok after) :
    frame.locals[start.toNat]? = some type := by
  obtain ⟨⟨_, _⟩, ran, -⟩ := Outcome.bind_ok.mp done
  simp only [FrameM.instruction, FrameM.load, primitive] at ran
  obtain ⟨⟨_, _⟩, expected, -⟩ := Outcome.bind_ok.mp ran
  obtain ⟨⟨found, _⟩, read, checked⟩ := Outcome.bind_ok.mp expected
  simp only at checked
  split at checked
  · rename_i same
    unfold FrameM.getLocal at read
    split at read
    · rename_i other otherFound
      cases read
      rw [otherFound, same]
    · cases read
  · cases checked

end Locals

/-- Values of two slots stay whole, however frames come about. The slot after one in the locals is
unusable, and on the stack every value begins where those below it end. A value of two slots can be
loaded only if it is where it was last put, and nothing has been stored into its slots since. -/
theorem VFrame.stays_whole (method : MethodContext) (steps : List SymInstruction) :
    (∀ frame, VFrame.moves.Traced method steps frame → Spaced frame.locals ∧
      (∃ state, SlotFrame.moves.Traced method steps state ∧ state.frame = frame) ∧
      ∀ kind start type thisClass item after, kind.primitive? = some type → type.width = 2 →
        frame.execute thisClass item (.load kind start) = .ok after →
          frame.locals[start.toNat]? = some type ∧ PutLast method steps type start.toNat) ∧
    ∀ state, SlotFrame.moves.Traced method steps state →
      VFrame.moves.Traced method steps state.frame ∧ state.slots.Numbered ∧
        state.slots.next = state.frame.depth := by
  refine ⟨fun frame traced => ⟨traced_spaced traced, traced_slots traced, ?_⟩,
    fun state traced => ?_⟩
  · intro kind start type thisClass item after primitive wide done
    have found := execute_load primitive done
    refine ⟨found, traced_putLast traced wide ?_⟩
    rw [List.getD_eq_getElem?_getD, found, Option.getD_some]
  · obtain ⟨without, numbered⟩ := SlotFrame.traced traced
    exact ⟨without, numbered, numbered.next.trans (state.slots.widthOf_entries state.locals)⟩

/-- A method with a parameter of two slots. -/
def longMethod : MethodContext := ⟨.thread, .clinit, ⟨[.base .long], none⟩, true⟩

/-- The parameter is copied, and then a number takes half of its room. -/
def copying : List SymInstruction :=
  [.store .int 1, .plain (.push .int0), .store .long 2, .load .long 0]

/-- The path on which the number was stored meets one on which it was not. -/
theorem copying_traced : VFrame.moves.Traced longMethod copying ⟨[.top, .top, .long], []⟩ := by
  have loaded : VFrame.moves.Traced longMethod [.load .long 0] ⟨[.long, .top], [.long]⟩ :=
    VFrame.traced_execute .entry .thread 0 _ rfl
  have copied : VFrame.moves.Traced longMethod [.store .long 2, .load .long 0]
      ⟨[.long, .top, .long, .top], []⟩ := VFrame.traced_execute loaded .thread 1 _ rfl
  have pushed : VFrame.moves.Traced longMethod
      [.plain (.push .int0), .store .long 2, .load .long 0]
      ⟨[.long, .top, .long, .top], [.integer]⟩ := VFrame.traced_execute copied .thread 2 _ rfl
  have cut : VFrame.moves.Traced longMethod copying ⟨[.top, .integer, .long, .top], []⟩ :=
    VFrame.traced_execute pushed .thread 3 _ rfl
  exact cut.existing copied ⟨.flat, 4, rfl⟩

theorem copying_whole : VFrame.moves.Traced longMethod copying ⟨[.top, .top, .long], []⟩ ∧
    Spaced [.top, .top, .long] ∧ PutLast longMethod copying .long 2 ∧
    ∃ state, SlotFrame.moves.Traced longMethod (.load .long 2 :: copying) state ∧
      state.frame = ⟨[.top, .top, .long], [.long]⟩ ∧ state.slots.Numbered ∧
      state.slots.next = 2 := by
  obtain ⟨spaced, -, loads⟩ := (VFrame.stays_whole longMethod copying).1 _ copying_traced
  obtain ⟨-, put⟩ := loads .long 2 .long .thread 5 ⟨[.top, .top, .long], [.long]⟩ rfl rfl rfl
  have loaded : VFrame.moves.Traced longMethod (.load .long 2 :: copying)
      ⟨[.top, .top, .long], [.long]⟩ :=
    VFrame.traced_execute copying_traced .thread 5 _ rfl
  obtain ⟨frames, slots⟩ := VFrame.stays_whole longMethod (.load .long 2 :: copying)
  obtain ⟨-, ⟨state, stateTraced, same⟩, -⟩ := frames _ loaded
  obtain ⟨-, numbered, next⟩ := slots state stateTraced
  rw [same] at next
  exact ⟨copying_traced, spaced, put, state, stateTraced, same, numbered, next⟩

end ClassWeave
