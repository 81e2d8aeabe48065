import ClassWeave.Proofs.Code.DebugTables
import ClassWeave.Proofs.Typing.Maximums

/-!
# The room that code asks for

The code of a method says how many stack slots and locals it needs. What it says is enough exactly if
nothing in the body needs more than can be said in 16 bits; the rest of what does is lost.
-/

namespace ClassWeave

open PoolM (Yields YieldsEach)

/-- A body needs so many locals: for parameters, for what it reads or writes, or for a variable in its
debugging tables. -/
inductive Typing.LocalNeed (typing : Typing) (body : Body) (method : MethodContext)
    (constants : ConstantTable) : Nat → Prop where
  | parameters :
      LocalNeed typing body method constants (method.descriptor.parameterSlots (!method.isStatic))
  | accessed {stop : Nat} (accesses : typing.Accesses body stop) :
      LocalNeed typing body method constants stop
  | described {range : VariableRange} {descriptor : String} (member : range ∈ body.localVariables)
      (spelt : constants.utf8 range.descriptorIndex = .ok descriptor) :
      LocalNeed typing body method constants
        (range.slot.toNat + Assembly.variableWidth descriptor)

namespace Assembly

/-- A draft asks for as many locals as its variable needs. -/
theorem variableDraft_slots {layout : Layout} {range : VariableRange} {before after : Pool}
    {draft : VariableDraft} (done : Yields (variableDraft layout range) before draft after) :
    ∃ descriptor, before.table.utf8 range.descriptorIndex = .ok descriptor ∧
      draft.slotsNeeded = range.slot.toNat + variableWidth descriptor := by
  obtain ⟨start, _, ran, done⟩ := PoolM.yields_bind.mp done
  obtain ⟨-, rfl⟩ := PoolM.yields_lift.mp ran
  obtain ⟨stop, _, ran, done⟩ := PoolM.yields_bind.mp done
  obtain ⟨-, rfl⟩ := PoolM.yields_lift.mp ran
  simp only at done
  split at done
  · obtain ⟨_, _, thrown, -⟩ := PoolM.yields_bind.mp done
    exact (PoolM.not_yields_throw thrown).elim
  · obtain ⟨descriptor, _, read, done⟩ := PoolM.yields_bind.mp done
    obtain ⟨rfl, -⟩ := PoolM.yields_pure.mp done
    exact ⟨descriptor, congrArg Prod.fst read, rfl⟩

namespace Trace

variable {trace : Trace} {body : Body} {context : AssemblyContext} {before after : Pool}
  {code : CodeAttribute}

/-- Each variable has a draft that asks for what it needs. -/
theorem Tabulates.drafts {attributes : List Attribute}
    (tabulates : trace.Tabulates body after attributes) :
    List.Forall₂ (fun range draft => ∃ descriptor,
      after.table.utf8 range.descriptorIndex = .ok descriptor ∧
        draft.slotsNeeded = range.slot.toNat + variableWidth descriptor)
      body.localVariables trace.drafts := by
  obtain ⟨-, drafted, plainFound, typedFound, mapped⟩ := tabulates
  have plain := (variableTable_interning _ _).grows.yields plainFound
  have typed := (variableTable_interning _ _).grows.yields typedFound
  have grown := plain.trans (typed.trans (mapped_grown mapped))
  refine (drafted.forall₂ (variableDraft_grows _)).2.imp ?_
  rintro range draft ⟨earlier, later, -, done, finished⟩
  obtain ⟨descriptor, spelt, slots⟩ := variableDraft_slots done
  have kept := (((variableDraft_grows _ _).yields done).trans (finished.trans grown)).kept
  exact ⟨descriptor, ConstantTable.Stable.utf8 _ kept spelt, slots⟩

namespace Explains

variable (explains : trace.Explains body context before code after)

include explains

theorem stackNeed_le {need : Nat}
    (needed : trace.typing.StackNeed body context.method need) : need ≤ trace.stackSlots := by
  have room := Body.inferFrames_stackNeed explains.typed needed
  unfold stackSlots
  split
  · exact room
  · exact room.trans (Nat.le_max_left _ _)

theorem stackSlots_le {limit : Nat} (positive : 1 ≤ limit)
    (needs : ∀ need, trace.typing.StackNeed body context.method need → need ≤ limit) :
    trace.stackSlots ≤ limit := by
  have room := (Body.inferFrames_maxStack explains.typed).mpr needs
  unfold stackSlots
  split
  · exact room
  · exact Nat.max_le.mpr ⟨room, positive⟩

theorem localSlots_le {limit : Nat} : trace.localSlots context.method ≤ limit ↔
    ∀ need, trace.typing.LocalNeed body context.method after.table need → need ≤ limit := by
  have drafts := explains.attributes.drafts
  have folded : trace.localSlots context.method =
      (trace.drafts.map VariableDraft.slotsNeeded).foldl max (max trace.typing.maxLocals
        (context.method.descriptor.parameterSlots (!context.method.isStatic))) :=
    List.foldl_map.symm
  rw [folded, FrameSearch.foldl_max_le_iff, Nat.max_le, Body.inferFrames_maxLocals explains.typed,
    List.forall_mem_map]
  constructor
  · rintro ⟨⟨⟨-, accesses⟩, parameters⟩, each⟩ need needed
    cases needed with
    | parameters => exact parameters
    | accessed access => exact accesses need access
    | described member spelt =>
      obtain ⟨draft, isDraft, _, same, slots⟩ := Outcome.exists_right_of_mem drafts member
      cases spelt.symm.trans same
      exact slots ▸ each draft isDraft
  · intro needs
    have parameters := needs _ .parameters
    refine ⟨⟨⟨parameters, fun stop accesses => needs stop (.accessed accesses)⟩, parameters⟩, ?_⟩
    intro draft isDraft
    obtain ⟨range, member, descriptor, spelt, slots⟩ := Outcome.exists_left_of_mem drafts isDraft
    exact slots ▸ needs _ (.described member spelt)

end Explains

end Trace

end Assembly

/-- A maximum that is cut off to 16 bits is above all needs exactly if none of them is cut off. -/
theorem cutOff_iff {needs : Nat → Prop} {most : Nat} (above : ∀ need, needs need → need ≤ most)
    (least : (∀ need, needs need → need ≤ 65535) → most ≤ 65535) :
    (∀ need, needs need → need ≤ (UInt16.ofNat most).toNat) ↔ ∀ need, needs need → need ≤ 65535 := by
  constructor
  · intro enough need needed
    exact (enough need needed).trans (Nat.le_of_lt_succ (UInt16.toNat_lt _))
  · intro short need needed
    rw [UInt16.toNat_ofNat_of_lt' (Nat.lt_succ_of_le (least short))]
    exact above need needed

/-- The room that code asks for is enough exactly if everything in its body makes do with 65535 stack
slots and as many locals. -/
theorem Body.assemble_maximums {body : Body} {context : AssemblyContext} {before after : Pool}
    {code : CodeAttribute} (done : Yields (body.assemble context) before code after) :
    ∃ typing, body.inferFrames context.method context.hierarchy = .ok typing ∧
      ((∀ need, typing.StackNeed body context.method need → need ≤ code.maxStack.toNat) ↔
        ∀ need, typing.StackNeed body context.method need → need ≤ 65535) ∧
      ((∀ need, typing.LocalNeed body context.method after.table need →
          need ≤ code.maxLocals.toNat) ↔
        ∀ need, typing.LocalNeed body context.method after.table need → need ≤ 65535) := by
  obtain ⟨trace, explains⟩ := Assembly.explained done
  refine ⟨trace.typing, explains.typed, ?_, ?_⟩
  · rw [explains.maxStack]
    exact cutOff_iff (fun need => explains.stackNeed_le) (explains.stackSlots_le (by decide))
  · rw [explains.maxLocals]
    exact cutOff_iff (explains.localSlots_le.mp (Nat.le_refl _)) explains.localSlots_le.mpr

theorem choice_maximums : ∃ after,
    Yields (choice.assemble choiceContext) .empty choiceCode after ∧
    ∃ typing, choice.inferFrames choiceContext.method choiceContext.hierarchy = .ok typing ∧
      ((∀ need, typing.StackNeed choice choiceContext.method need →
          need ≤ choiceCode.maxStack.toNat) ↔
        ∀ need, typing.StackNeed choice choiceContext.method need → need ≤ 65535) ∧
      ((∀ need, typing.LocalNeed choice choiceContext.method after.table need →
          need ≤ choiceCode.maxLocals.toNat) ↔
        ∀ need, typing.LocalNeed choice choiceContext.method after.table need →
          need ≤ 65535) := by
  obtain ⟨after, done⟩ := choice_assembled
  exact ⟨after, done, Body.assemble_maximums done⟩

/-- Stores a number of two slots. -/
def storing (slot : UInt16) : Body where
  items := [.instruction (.plain (.push .long0)), .instruction (.store .long slot),
    .branch (.ret .void)]
  handlers := []
  localVariables := []
  nextLabel := ⟨0⟩

def storingContext : AssemblyContext :=
  ⟨⟨.object, .clinit, ⟨[], none⟩, true⟩, .flat, false⟩

def storingTyping (slot : UInt16) : Typing where
  frames := #[some ⟨[], []⟩, some ⟨[], [.long]⟩, some ⟨storeLocal [] slot.toNat .long, []⟩]
  maxStack := 2
  maxLocals := max 0 (storeLocal [] slot.toNat .long).length

theorem storing_typed (slot : UInt16) :
    (storing slot).inferFrames storingContext.method .flat = .ok (storingTyping slot) := by
  let method := storingContext.method
  let graph : FlowGraph := ⟨(storing slot).items.toArray, ∅, []⟩
  let first : FrameSearch := ⟨⟨#[some ⟨[], []⟩, none, none], 0, 0⟩, [0]⟩
  let second : FrameSearch := ⟨⟨#[some ⟨[], []⟩, some ⟨[], [.long]⟩, none], 2, 0⟩, [1]⟩
  let third : FrameSearch := ⟨storingTyping slot, [2]⟩
  have built : FlowGraph.ofBody (storing slot) = .ok graph := rfl
  have started : FrameSearch.start graph method = .ok first := rfl
  have pushed : FrameSearch.step .flat graph method 0 ⟨first.typing, []⟩ = .ok second := rfl
  have stored : FrameSearch.step .flat graph method 1 ⟨second.typing, []⟩ = .ok third := rfl
  let fourth : FrameSearch := ⟨⟨(storingTyping slot).frames, 2,
    max (storingTyping slot).maxLocals (storeLocal [] slot.toNat .long).length⟩, []⟩
  have returned : FrameSearch.step .flat graph method 2 ⟨third.typing, []⟩ = .ok fourth := rfl
  have ran : FrameSearch.run .flat graph method (999999999999999997 + 1 + 1 + 1) first =
      .ok ⟨storingTyping slot, []⟩ := by
    rw [FrameSearch.run_next pushed, FrameSearch.run_next stored, FrameSearch.run_next returned,
      FrameSearch.run]
    simp [storingTyping]
  exact Outcome.bind_ok.mpr ⟨graph, built, Outcome.bind_ok.mpr ⟨first, started,
    Outcome.bind_ok.mpr ⟨_, ran, rfl⟩⟩⟩

/-- A number in the last slot, which leaves no slot for its second half. -/
def overflowing : Body := storing 65535

def overflowingCode : CodeAttribute where
  maxStack := 2
  maxLocals := 1
  code := [0x09, 0xC4, 0x37, 0xFF, 0xFF, 0xB1]
  exceptions := []
  attributes := []

theorem overflowing_assembled :
    Yields (overflowing.assemble storingContext) .empty overflowingCode .empty := by
  refine PoolM.yields_bind.mpr ⟨storingTyping 65535, .empty,
    PoolM.yields_lift.mpr ⟨storing_typed 65535, rfl⟩, ?_⟩
  have length : (storeLocal [] (65535 : UInt16).toNat .long).length = 65537 := length_storeLocal
  rw [storingTyping, length]
  -- what is assembled does not depend on the 65537 locals themselves
  generalize storeLocal [] (65535 : UInt16).toNat .long = locals
  cbv

/-- Code that stores to the slots 65535 and 65536 is said to need one local. -/
theorem overflowing_cutOff :
    Yields (overflowing.assemble storingContext) .empty overflowingCode .empty ∧
    overflowing.inferFrames storingContext.method .flat = .ok (storingTyping 65535) ∧
    ¬ ∀ need, (storingTyping 65535).LocalNeed overflowing storingContext.method Pool.empty.table need →
      need ≤ overflowingCode.maxLocals.toNat := by
  refine ⟨overflowing_assembled, storing_typed 65535, fun enough => ?_⟩
  have stored : (storingTyping 65535).Accesses overflowing 65537 := ⟨1, _, rfl, rfl, rfl⟩
  exact absurd (enough _ (.accessed stored)) (by decide)

end ClassWeave
