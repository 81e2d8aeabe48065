import Mathlib.Data.List.Forall2
import ClassWeave.Constant.Pool

/-!
# Outcomes

What follows from a computation having gone well: each of its parts has, and the later ones have
seen the results of the earlier ones.
-/

namespace ClassWeave

namespace Outcome

variable {ε α β : Type}

theorem bind_ok {action : Except ε α} {next : α → Except ε β} {result : β} :
    action >>= next = .ok result ↔ ∃ value, action = .ok value ∧ next value = .ok result := by
  cases action with
  | error fault => simp [bind, Except.bind]
  | ok value => simp [bind, Except.bind]

theorem map_ok {action : Except ε α} {change : α → β} {result : β} :
    change <$> action = .ok result ↔ ∃ value, action = .ok value ∧ change value = result := by
  cases action with
  | error fault => simp [Functor.map, Except.map]
  | ok value => simp [Functor.map, Except.map]

theorem pure_ok {value result : α} : (pure value : Except ε α) = .ok result ↔ value = result := by
  simp [pure, Except.pure]

theorem not_throw_ok {fault : ε} {result : α} : ¬ (throw fault : Except ε α) = .ok result := by
  simp [throw, throwThe, MonadExceptOf.throw]

theorem mapError_ok {ε' : Type} {action : Except ε α} {change : ε → ε'} {result : α} :
    action.mapError change = .ok result ↔ action = .ok result := by
  cases action <;> simp [Except.mapError]

theorem bind_error {action : Except ε α} {next : α → Except ε β} {fault : ε} :
    action >>= next = .error fault ↔
      action = .error fault ∨ ∃ value, action = .ok value ∧ next value = .error fault := by
  cases action with
  | error other => simp [bind, Except.bind]
  | ok value => simp [bind, Except.bind]

theorem map_error {action : Except ε α} {change : α → β} {fault : ε} :
    change <$> action = .error fault ↔ action = .error fault := by
  cases action with
  | error other => simp [Functor.map, Except.map]
  | ok value => simp [Functor.map, Except.map]

theorem mapError_error {ε' : Type} {action : Except ε α} {change : ε → ε'} {fault : ε'} :
    action.mapError change = .error fault ↔
      ∃ cause, action = .error cause ∧ change cause = fault := by
  cases action <;> simp [Except.mapError]

/-- Going through a list stops at one element only. -/
theorem foldlM_stops_once {next : β → α → Except ε β} {start middle reached : β}
    {first second before after : List α} {a b : α} {fault other : ε}
    (same : first ++ a :: before = second ++ b :: after)
    (firstDone : first.foldlM next start = .ok middle) (stops : next middle a = .error fault)
    (secondDone : second.foldlM next start = .ok reached)
    (stopsToo : next reached b = .error other) :
    first = second ∧ a = b ∧ middle = reached ∧ fault = other := by
  induction first generalizing second start with
  | nil =>
    cases firstDone
    cases second with
    | nil =>
      cases same
      cases secondDone
      cases stops.symm.trans stopsToo
      exact ⟨rfl, rfl, rfl, rfl⟩
    | cons c second =>
      cases same
      rw [List.foldlM_cons] at secondDone
      obtain ⟨_, done, -⟩ := bind_ok.mp secondDone
      cases stops.symm.trans done
  | cons c first ih =>
    rw [List.foldlM_cons] at firstDone
    obtain ⟨state, done, firstDone⟩ := bind_ok.mp firstDone
    cases second with
    | nil =>
      cases secondDone
      cases same
      cases stopsToo.symm.trans done
    | cons d second =>
      obtain ⟨rfl, sameTail⟩ := List.cons.inj same
      rw [List.foldlM_cons] at secondDone
      obtain ⟨_, doneToo, secondDone⟩ := bind_ok.mp secondDone
      cases done.symm.trans doneToo
      obtain ⟨rfl, rfl, rfl, rfl⟩ := ih sameTail firstDone secondDone
      exact ⟨rfl, rfl, rfl, rfl⟩

theorem foldlM_stopped {next : β → α → Except ε β} {start middle : β} {first : List α} {a : α}
    {fault : ε} (done : first.foldlM next start = .ok middle) (stops : next middle a = .error fault)
    (rest : List α) : (first ++ a :: rest).foldlM next start = .error fault := by
  rw [List.foldlM_append, done]
  change (a :: rest).foldlM next middle = .error fault
  rw [List.foldlM_cons, stops]
  rfl

/-- What changes something only once can be done as often as one likes. -/
theorem foldlM_replicate {next : β → α → Except ε β} {start reached : β} {a : α}
    (first : next start a = .ok reached) (again : next reached a = .ok reached) (count : Nat) :
    (List.replicate (count + 1) a).foldlM next start = .ok reached := by
  have others : (List.replicate count a).foldlM next reached = .ok reached := by
    induction count with
    | zero => rfl
    | succ count ih =>
      rw [List.replicate_succ, List.foldlM_cons, again]
      exact ih
  rw [List.replicate_succ, List.foldlM_cons, first]
  exact others

/-- Going through a list gives one result for each element. -/
theorem mapM_ok {action : α → Except ε β} {values : List α} {results : List β} :
    values.mapM action = .ok results ↔
      List.Forall₂ (fun value result => action value = .ok result) values results := by
  induction values generalizing results with
  | nil =>
    rw [List.mapM_nil, pure_ok, List.forall₂_nil_left_iff]
    exact eq_comm
  | cons value rest ih =>
    simp only [List.mapM_cons, bind_ok, pure_ok, ih, List.forall₂_cons_left_iff]
    constructor
    · rintro ⟨first, done, others, laterDone, rfl⟩
      exact ⟨first, others, done, laterDone, rfl⟩
    · rintro ⟨first, others, done, laterDone, rfl⟩
      exact ⟨first, done, others, laterDone, rfl⟩

theorem mapM_replicate {action : α → Except ε β} {value : α} {result : β}
    (done : action value = .ok result) (count : Nat) :
    (List.replicate count value).mapM action = .ok (.replicate count result) := by
  rw [mapM_ok]
  induction count with
  | zero => exact .nil
  | succ count ih => exact .cons done ih

theorem exists_left_of_mem {r : α → β → Prop} {as : List α} {bs : List β}
    (each : List.Forall₂ r as bs) {b : β} (member : b ∈ bs) : ∃ a ∈ as, r a b := by
  induction each with
  | nil => cases member
  | cons first _ ih =>
    rcases List.mem_cons.mp member with rfl | later
    · exact ⟨_, List.mem_cons_self, first⟩
    · obtain ⟨a, found, related⟩ := ih later
      exact ⟨a, List.mem_cons_of_mem _ found, related⟩

theorem exists_right_of_mem {r : α → β → Prop} {as : List α} {bs : List β}
    (each : List.Forall₂ r as bs) {a : α} (member : a ∈ as) : ∃ b ∈ bs, r a b :=
  exists_left_of_mem each.flip member

/-- The results are those of the elements. -/
theorem mem_mapM {action : α → Except ε β} {values : List α} {results : List β}
    (done : values.mapM action = .ok results) {result : β} :
    result ∈ results ↔ ∃ value ∈ values, action value = .ok result := by
  have each := mapM_ok.mp done
  constructor
  · exact exists_left_of_mem each
  · rintro ⟨value, member, found⟩
    obtain ⟨other, otherMember, otherFound⟩ := exists_right_of_mem each member
    rw [found] at otherFound
    cases otherFound
    exact otherMember

/-- Every element has a result. -/
theorem mapM_total {action : α → Except ε β} {values : List α} {results : List β}
    (done : values.mapM action = .ok results) {value : α} (member : value ∈ values) :
    ∃ result ∈ results, action value = .ok result :=
  exists_right_of_mem (mapM_ok.mp done) member

section Stateful

variable {σ : Type} {before after : σ} {result : α}

/-- What comes later starts from the state that was left behind, if nothing went wrong. -/
theorem bind_apply (action : ExceptT ε (StateM σ) α) (next : α → ExceptT ε (StateM σ) β)
    (state : σ) : (action >>= next) state = match action state with
      | (.ok value, later) => next value later
      | (.error fault, later) => (.error fault, later) := by
  simp only [bind, ExceptT.bind, ExceptT.mk, StateT.bind, ExceptT.bindCont]
  rcases action state with ⟨fault | value, later⟩ <;> rfl

theorem bind_apply_ok {action : ExceptT ε (StateM σ) α} {next : α → ExceptT ε (StateM σ) β}
    {result : β} : (action >>= next) before = (.ok result, after) ↔
      ∃ value middle, action before = (.ok value, middle) ∧
        next value middle = (.ok result, after) := by
  rw [bind_apply]
  rcases action before with ⟨fault | value, middle⟩
  · constructor
    · intro done
      cases done
    · rintro ⟨_, _, done, -⟩
      cases done
  · constructor
    · intro done
      exact ⟨value, middle, rfl, done⟩
    · rintro ⟨_, _, same, done⟩
      cases same
      exact done

theorem pure_apply_ok {value : α} : (pure value : ExceptT ε (StateM σ) α) before =
    (.ok result, after) ↔ value = result ∧ before = after := by
  change (Except.ok value, before) = (.ok result, after) ↔ _
  simp

theorem lift_apply_ok {outcome : Except ε α} : (liftM outcome : ExceptT ε (StateM σ) α) before =
    (.ok result, after) ↔ outcome = .ok result ∧ before = after := by
  change (outcome, before) = (.ok result, after) ↔ _
  rw [Prod.mk.injEq]

end Stateful

end Outcome

namespace PoolM

variable {α β : Type}

/-- Taken on a pool, the action goes well, and leaves another pool behind. -/
def Yields (action : PoolM α) (before : Pool) (value : α) (after : Pool) : Prop :=
  action before = (.ok value, after)

theorem yields_pure {value result : α} {before after : Pool} :
    Yields (pure value) before result after ↔ value = result ∧ before = after :=
  Outcome.pure_apply_ok

theorem yields_bind {action : PoolM α} {next : α → PoolM β} {before after : Pool} {result : β} :
    Yields (action >>= next) before result after ↔
      ∃ value middle, Yields action before value middle ∧
        Yields (next value) middle result after :=
  Outcome.bind_apply_ok

theorem yields_map {action : PoolM α} {change : α → β} {before after : Pool} {result : β} :
    Yields (change <$> action) before result after ↔
      ∃ value, Yields action before value after ∧ change value = result := by
  rw [map_eq_pure_bind, yields_bind]
  simp only [yields_pure]
  constructor
  · rintro ⟨value, middle, done, same, rfl⟩
    exact ⟨value, done, same⟩
  · rintro ⟨value, done, same⟩
    exact ⟨value, after, done, same, rfl⟩

theorem yields_lift {outcome : Except Fault α} {before after : Pool} {result : α} :
    Yields (liftM outcome) before result after ↔ outcome = .ok result ∧ before = after :=
  Outcome.lift_apply_ok

theorem not_yields_throw {fault : Fault} {before after : Pool} {result : α} :
    ¬ Yields (throw fault) before result after := by
  intro done
  cases done

/-- A constant that is not in the pool is added at its end. -/
theorem yields_intern_new {pool : Pool} {constant : Constant}
    (new : pool.firstSlot[constant]? = none)
    (room : pool.table.size + constant.width ≤ Pool.maxSlots) :
    ∃ after, Yields (PoolM.intern constant) pool (UInt16.ofNat pool.table.size) after ∧
      after.table = pool.table.push constant ∧
      ∀ other, other ≠ constant → after.firstSlot[other]? = pool.firstSlot[other]? := by
  refine ⟨⟨pool.table.push constant,
    pool.firstSlot.insert constant (UInt16.ofNat pool.table.size)⟩, ?_, rfl, ?_⟩
  · simp only [Yields, PoolM.intern, Pool.intern, new]
    rw [if_neg (Nat.not_lt.mpr room)]
  · intro other different
    simp [Std.HashMap.getElem?_insert, Ne.symm different]

/-- The pools that a list of actions leaves behind one after the other. -/
inductive YieldsEach (action : α → PoolM β) : List α → Pool → List β → Pool → Prop where
  | nil {pool : Pool} : YieldsEach action [] pool [] pool
  | cons {value : α} {rest : List α} {result : β} {results : List β} {before middle after : Pool}
      (first : Yields (action value) before result middle)
      (later : YieldsEach action rest middle results after) :
      YieldsEach action (value :: rest) before (result :: results) after

theorem yields_mapM {action : α → PoolM β} {values : List α} {results : List β}
    {before after : Pool} :
    Yields (values.mapM action) before results after ↔
      YieldsEach action values before results after := by
  induction values generalizing results before with
  | nil =>
    rw [List.mapM_nil, yields_pure]
    constructor
    · rintro ⟨rfl, rfl⟩
      exact .nil
    · intro each
      cases each
      exact ⟨rfl, rfl⟩
  | cons value rest ih =>
    simp only [List.mapM_cons, yields_bind, yields_pure]
    constructor
    · rintro ⟨first, middle, done, others, last, later, rfl, rfl⟩
      exact .cons done (ih.mp later)
    · intro each
      cases each with
      | cons first later => exact ⟨_, _, first, _, _, ih.mpr later, rfl, rfl⟩

theorem YieldsEach.length_eq {action : α → PoolM β} {values : List α} {results : List β}
    {before after : Pool} (each : YieldsEach action values before results after) :
    values.length = results.length := by
  induction each with
  | nil => rfl
  | cons _ _ ih => simp [ih]

/-- Each element has a result, found with some pool. -/
theorem YieldsEach.getElem? {action : α → PoolM β} {values : List α} {results : List β}
    {before after : Pool} (each : YieldsEach action values before results after) {index : Nat}
    {value : α} (found : values[index]? = some value) :
    ∃ result earlier later, results[index]? = some result ∧
      Yields (action value) earlier result later := by
  induction each generalizing index with
  | nil => simp at found
  | cons first _ ih =>
    cases index with
    | zero =>
      cases found
      exact ⟨_, _, _, rfl, first⟩
    | succ index => exact ih found

/-- Every element has a result, and there are no other results. -/
theorem YieldsEach.total {action : α → PoolM β} {values : List α} {results : List β}
    {before after : Pool} (each : YieldsEach action values before results after) :
    (∀ value ∈ values, ∃ result ∈ results, ∃ earlier later,
      Yields (action value) earlier result later) ∧
    ∀ result ∈ results, ∃ value ∈ values, ∃ earlier later,
      Yields (action value) earlier result later := by
  induction each with
  | nil => simp
  | cons first _ ih =>
    obtain ⟨forwards, backwards⟩ := ih
    constructor
    · intro value member
      rcases List.mem_cons.mp member with rfl | member
      · exact ⟨_, List.mem_cons_self, _, _, first⟩
      · obtain ⟨result, found, done⟩ := forwards value member
        exact ⟨result, List.mem_cons_of_mem _ found, done⟩
    · intro result member
      rcases List.mem_cons.mp member with rfl | member
      · exact ⟨_, List.mem_cons_self, _, _, first⟩
      · obtain ⟨value, found, done⟩ := backwards result member
        exact ⟨value, List.mem_cons_of_mem _ found, done⟩

end PoolM

end ClassWeave
