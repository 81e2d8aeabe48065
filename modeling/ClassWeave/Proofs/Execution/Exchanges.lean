import ClassWeave.Proofs.Execution.Reflection
import ClassWeave.Proofs.Typing.Exchanges

/-!
# What instructions leave to a runtime

On a runtime that keeps to what instructions take and leave, values move as their types do.
-/

namespace ClassWeave

variable {ρ η α β : Type}

/-- The slots that a value takes. -/
def Value.width (value : Value ρ) : Nat := if value.isWide then 2 else 1

/-- The runtime does what instructions are said to do to the stack, where that is left to it. -/
structure Runtime.Orderly (runtime : Runtime ρ η) : Prop where
  statics (heap : η) (field : FieldRef) : (runtime.static heap field).width = field.type.width
  exchanges {step : SymInstruction} {exchange : Exchange} {store : Store ρ η}
    {stack : List (Value ρ)} {heap : η} : runtime.completes step store stack heap →
      step.exchange? = some exchange → ∃ results, results.map Value.width = exchange.leaves ∧
        stack = results ++ store.stack.drop exchange.takes
  rearranges {op : StackOp} {store : Store ρ η} {stack : List (Value ρ)} {heap : η} :
    runtime.completes (.plain (.stack op)) store stack heap → op.rearrange store.stack = some stack
  creates {type : RefType} {store : Store ρ η} {stack : List (Value ρ)} {heap : η} :
    runtime.completes (.onClass .new type) store stack heap →
      ∃ object, stack = .reference (some object) :: store.stack

section Rearranging

variable {first : α → Nat}

/-- A value that takes one slot stands alone. -/
theorem eq_singleton_of_slots (positive : ∀ value, 0 < first value) {values : List α}
    (slots : (values.map first).sum = 1) : ∃ value, values = [value] ∧ first value = 1 := by
  match values, slots with
  | [value], slots => exact ⟨value, rfl, by simpa using slots⟩
  | upper :: lower :: rest, slots =>
    have upperPositive := positive upper
    have lowerPositive := positive lower
    simp only [List.map_cons, List.sum_cons] at slots
    omega

end Rearranging

namespace StackOp

attribute [local simp] Value.width upper lower

/-- Each form of an instruction moves the values that fill its slots. -/
theorem rearranges_of_rearrange {op : StackOp} {stack after : List (Value ρ)}
    (moved : op.rearrange stack = some after) : op.Rearranges Value.width stack after := by
  unfold rearrange at moved
  repeat' split at moved
  all_goals cases moved
  -- one goal for each form, in the order in which they are listed there
  · exact ⟨[_], [], _, by simp_all, rfl, rfl, rfl⟩
  · exact ⟨[_], [], _, by simp_all, rfl, rfl, rfl⟩
  · exact ⟨[_, _], [], _, by simp_all, rfl, rfl, rfl⟩
  · exact ⟨[_], [], _, by simp_all, rfl, rfl, rfl⟩
  · exact ⟨[_], [_], _, by simp_all, by simp_all, rfl, rfl⟩
  · exact ⟨[_], [_], _, by simp_all, by simp_all, rfl, rfl⟩
  · exact ⟨[_], [_, _], _, by simp_all, by simp_all, rfl, rfl⟩
  · exact ⟨[_], [], _, by simp_all, rfl, rfl, rfl⟩
  · exact ⟨[_, _], [], _, by simp_all, rfl, rfl, rfl⟩
  · exact ⟨[_], [_], _, by simp_all, by simp_all, rfl, rfl⟩
  · exact ⟨[_, _], [_], _, by simp_all, by simp_all, rfl, rfl⟩
  · exact ⟨[_], [_], _, by simp_all, by simp_all, rfl, rfl⟩
  · exact ⟨[_], [_, _], _, by simp_all, by simp_all, rfl, rfl⟩
  · exact ⟨[_, _], [_], _, by simp_all, by simp_all, rfl, rfl⟩
  · exact ⟨[_, _], [_, _], _, by simp_all, by simp_all, rfl, rfl⟩
  · exact ⟨[_], [_], _, by simp_all, by simp_all, rfl, rfl⟩

end StackOp

theorem Value.width_pos (value : Value ρ) : 0 < value.width := by
  cases value <;> exact Nat.succ_pos _

namespace Runtime.Orderly

variable {runtime : Runtime ρ η} {step : SymInstruction} {before after : Store ρ η}

/-- An instruction with operands and results takes and leaves just these, whether it is spelt out or
not. -/
theorem exchange (orderly : runtime.Orderly) {exchange : Exchange}
    (known : step.exchange? = some exchange) (done : runtime.Completes step before after) :
    ∃ results, results.map Value.width = exchange.leaves ∧
      after.stack = results ++ before.stack.drop exchange.takes ∧ after.locals = before.locals := by
  have unknown (done : runtime.CompletesUnknown step before after) :
      ∃ results, results.map Value.width = exchange.leaves ∧
        after.stack = results ++ before.stack.drop exchange.takes ∧
          after.locals = before.locals := by
    obtain ⟨results, widths, same⟩ := orderly.exchanges done.1 known
    exact ⟨results, widths, same, done.2⟩
  unfold Completes at done
  split at done
  case h_1 | h_2 | h_3 | h_4 => cases known
  case h_5 field =>
    split at done
    · cases known
      subst done
      exact ⟨[runtime.static before.heap field], by
        rw [List.map_singleton, orderly.statics]; rfl, rfl, rfl⟩
    · exact unknown done
  case h_6 method =>
    split at done
    · rename_i isInstance
      subst isInstance
      cases known
      obtain ⟨object, type, rest, answer, top, -, rfl⟩ := done
      exact ⟨[.ofBool answer], rfl, by rw [top]; rfl, rfl⟩
    · exact unknown done
  case h_7 => exact unknown done

/-- Values are copied and dropped as their types are. -/
theorem rearrange (orderly : runtime.Orderly) {op : StackOp} {types moved : List VType}
    {related : VType → Value ρ → Prop}
    (widths : ∀ {type value}, related type value → type.width = value.width)
    (all : List.Forall₂ related types before.stack)
    (rearranges : op.Rearranges VerificationType.width types moved)
    (done : runtime.Completes (.plain (.stack op)) before after) :
    List.Forall₂ related moved after.stack ∧ after.locals = before.locals := by
  suffices also : op.Rearranges Value.width before.stack after.stack ∧
      after.locals = before.locals from
    ⟨rearranges.forall₂ VType.width_pos Value.width_pos widths also.1 all, also.2⟩
  cases op with
  | swap =>
    -- a swap is spelt out, for values of any width
    obtain ⟨first, second, rest, top, rfl⟩ := done
    obtain ⟨above, below, others, upper, lower, rfl, -⟩ := rearranges
    obtain ⟨upper, rfl, upperWidth⟩ := eq_singleton_of_slots VType.width_pos upper
    obtain ⟨lower, rfl, lowerWidth⟩ := eq_singleton_of_slots VType.width_pos lower
    rw [top] at all
    obtain ⟨firstRelated, all⟩ := List.forall₂_cons.mp all
    obtain ⟨secondRelated, -⟩ := List.forall₂_cons.mp all
    refine ⟨⟨[first], [second], rest, ?_, ?_, top, rfl⟩, rfl⟩
    · exact (widths firstRelated).symm.trans upperWidth
    · exact (widths secondRelated).symm.trans lowerWidth
  | pop | pop2 | dup | dupX1 | dupX2 | dup2 | dup2X1 | dup2X2 =>
    exact ⟨StackOp.rearranges_of_rearrange (orderly.rearranges done.1), done.2⟩

theorem create (orderly : runtime.Orderly) {type : RefType}
    (done : runtime.Completes (.onClass .new type) before after) :
    ∃ object, after.stack = .reference (some object) :: before.stack ∧
      after.locals = before.locals := by
  obtain ⟨object, same⟩ := orderly.creates done.1
  exact ⟨object, same, done.2⟩

end Runtime.Orderly

theorem Test.Decides.stack_eq {test : Test} {stack rest : List (Value ρ)} {answer : Bool}
    {target : Label} (decided : test.Decides stack answer rest) :
    rest = stack.drop (Branch.jumpIf test target).takes := by
  cases decided <;> rfl

/-- A branch takes its operands, if it goes anywhere. -/
theorem Branch.Goes.stack_eq {jump : Branch Label} {stack rest : List (Value ρ)}
    {target : Option Label} (goes : jump.Goes stack target rest) : rest = stack.drop jump.takes := by
  cases goes with
  | taken decided | passed decided => exact decided.stack_eq
  | goto | tableSwitch | tableDefault | lookupSwitch | lookupDefault => rfl

/-- What goes on to the next item is said to fall through. -/
theorem Branch.Goes.fallsThrough {jump : Branch Label} {stack rest : List (Value ρ)}
    (goes : jump.Goes stack none rest) : jump.fallsThrough = true := by
  cases goes with
  | passed => rfl

end ClassWeave
