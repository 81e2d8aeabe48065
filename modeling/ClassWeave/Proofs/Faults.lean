import ClassWeave.Code.Instruction
import ClassWeave.Proofs.Constant.Growth

/-!
# Which faults there are

What a computation can fail with. If the parts of a computation fail only with faults of some kind,
so does the whole; a part that comes later may take into account that the earlier ones have gone
well.
-/

namespace ClassWeave

namespace Outcome

variable {ε α β : Type} {kind : Fault → Prop}

/-- If the computation fails, it is with a fault of this kind. -/
def Raises (kind : Fault → Prop) (action : Except Fault α) : Prop :=
  ∀ ⦃fault : Fault⦄, action = .error fault → kind fault

theorem raises_ok (value : α) : Raises kind (.ok value) := by
  intro fault failed
  cases failed

theorem raises_of_ok {action : Except Fault α} {value : α} (done : action = .ok value) :
    Raises kind action := done ▸ raises_ok value

theorem raises_error {fault : Fault} (allowed : kind fault) :
    Raises kind (.error fault : Except Fault α) := by
  intro other failed
  cases failed
  exact allowed

theorem Raises.bind {action : Except Fault α} {next : α → Except Fault β}
    (first : Raises kind action) (later : ∀ value, action = .ok value → Raises kind (next value)) :
    Raises kind (action >>= next) := by
  cases outcome : action with
  | error fault => exact raises_error (first outcome)
  | ok value => exact later value outcome

theorem Raises.map {action : Except Fault α} (raises : Raises kind action) (change : α → β) :
    Raises kind (change <$> action) := by
  rw [map_eq_pure_bind]
  exact raises.bind fun value _ => raises_ok (change value)

theorem raises_mapError {action : Except ε α} {change : ε → Fault}
    (each : ∀ cause, kind (change cause)) : Raises kind (action.mapError change) := by
  cases action with
  | error cause => exact raises_error (each cause)
  | ok value => exact raises_ok value

theorem raises_mapM {action : α → Except Fault β} {values : List α}
    (each : ∀ value ∈ values, Raises kind (action value)) : Raises kind (values.mapM action) := by
  induction values with
  | nil => exact raises_ok []
  | cons value rest ih =>
    rw [List.mapM_cons]
    obtain ⟨first, later⟩ := List.forall_mem_cons.mp each
    exact first.bind fun _ _ => (ih later).bind fun _ _ => raises_ok _

theorem raises_foldlM {next : β → α → Except Fault β} {values : List α}
    (each : ∀ state, ∀ value ∈ values, Raises kind (next state value)) (state : β) :
    Raises kind (values.foldlM next state) := by
  induction values generalizing state with
  | nil => exact raises_ok state
  | cons value rest ih =>
    rw [List.foldlM_cons]
    have rest (state : β) (value : α) (member : value ∈ rest) : Raises kind (next state value) :=
      each state value (List.mem_cons_of_mem _ member)
    exact (each state value List.mem_cons_self).bind fun later _ => ih rest later

end Outcome

namespace PoolM

variable {α β : Type} {kind : Fault → Prop}

/-- If the action fails, on whatever pool, it is with a fault of this kind. -/
def Raises (kind : Fault → Prop) (action : PoolM α) : Prop :=
  ∀ ⦃before : Pool⦄ ⦃fault : Fault⦄, (action before).1 = .error fault → kind fault

theorem raises_pure (value : α) : Raises kind (pure value) := by
  intro before fault failed
  cases failed

theorem raises_throw {fault : Fault} (allowed : kind fault) :
    Raises kind (throw fault : PoolM α) := by
  intro before other failed
  cases failed
  exact allowed

theorem raises_lift {outcome : Except Fault α} (raises : Outcome.Raises kind outcome) :
    Raises kind (liftM outcome : PoolM α) := by
  intro before fault failed
  cases outcome with
  | error cause =>
    cases failed
    exact raises rfl
  | ok value => cases failed

theorem raises_lookup {query : ConstantTable → Except Fault α}
    (each : ∀ table, Outcome.Raises kind (query table)) : Raises kind (lookup query) := by
  intro before fault failed
  exact each before.table failed

theorem Raises.bind {action : PoolM α} {next : α → PoolM β} (first : Raises kind action)
    (later : ∀ before value after, Yields action before value after → Raises kind (next value)) :
    Raises kind (action >>= next) := by
  intro before fault failed
  change ((action >>= next) before).1 = .error fault at failed
  rw [Outcome.bind_apply] at failed
  rcases outcome : action before with ⟨cause | value, middle⟩
  · rw [outcome] at failed
    cases failed
    exact first (congrArg Prod.fst outcome)
  · rw [outcome] at failed
    exact later before value middle outcome failed

theorem Raises.map {action : PoolM α} (raises : Raises kind action) (change : α → β) :
    Raises kind (change <$> action) := by
  rw [map_eq_pure_bind]
  exact raises.bind fun _ _ _ _ => raises_pure _

theorem raises_mapM {action : α → PoolM β} {values : List α}
    (each : ∀ value ∈ values, Raises kind (action value)) : Raises kind (values.mapM action) := by
  induction values with
  | nil => exact raises_pure []
  | cons value rest ih =>
    rw [List.mapM_cons]
    obtain ⟨first, later⟩ := List.forall_mem_cons.mp each
    exact first.bind fun _ _ _ _ => (ih later).bind fun _ _ _ _ => raises_pure _

theorem raises_intern (full : ∀ slot, kind (.poolOverflow slot)) (constant : Constant) :
    Raises kind (intern constant) := by
  intro before fault failed
  unfold intern Pool.intern at failed
  split at failed
  · cases failed
  · simp only at failed
    split at failed
    · cases failed
      exact full _
    · cases failed

/-- Adding constants only fails if there are too many. -/
theorem Interning.raises {action : PoolM α} (interning : Interning action)
    (full : ∀ slot, kind (.poolOverflow slot)) : Raises kind action := by
  induction interning with
  | pure value => exact raises_pure value
  | intern constant => exact raises_intern full constant
  | bind _ _ first later => exact first.bind fun _ value _ _ => later value

end PoolM

end ClassWeave
