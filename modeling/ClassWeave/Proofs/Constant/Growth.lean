import ClassWeave.Code.Operand
import ClassWeave.Proofs.Bytes
import ClassWeave.Proofs.Outcome

/-!
# Pools only grow

A constant keeps its slot whatever is added after it, also if something goes wrong. So all that was
read from a table is read from every larger one, and what has been interned is found again.
-/

namespace ClassWeave

theorem Constant.width_eq (constant : Constant) : constant.width = 1 ∨ constant.width = 2 := by
  cases constant <;> simp [Constant.width]

theorem Constant.single_of_not_wide (constant : Constant)
    (narrow : ¬ (constant.width == 2) = true) : constant.width = 1 :=
  constant.width_eq.resolve_right fun wide => narrow (beq_iff_eq.mpr wide)

namespace ConstantTable

/-- Every slot of the older table has the same content in the newer one. -/
def Extends (newer older : ConstantTable) : Prop := older.slots.toList <+: newer.slots.toList

theorem Extends.refl (table : ConstantTable) : table.Extends table := List.prefix_refl _

theorem Extends.trans {newest newer older : ConstantTable} (second : newest.Extends newer)
    (first : newer.Extends older) : newest.Extends older := List.IsPrefix.trans first second

theorem Extends.push (table : ConstantTable) (constant : Constant) :
    (table.push constant).Extends table := by
  unfold ConstantTable.push
  simp only
  split
  · exact ⟨[some constant, none], by simp⟩
  · exact ⟨[some constant], by simp⟩

theorem Extends.slot {newer older : ConstantTable} (grown : newer.Extends older) {slot : Nat}
    (inside : slot < older.size) : newer.slots[slot]? = older.slots[slot]? := by
  obtain ⟨added, same⟩ := grown
  rw [← Array.getElem?_toList, ← Array.getElem?_toList, ← same,
    List.getElem?_append_left (by rwa [Array.length_toList])]

theorem lt_size {table : ConstantTable} {slot : Nat} {constant : Constant}
    (found : table.get? slot = some constant) : slot < table.size := by
  by_contra outside
  rw [ConstantTable.get?, Array.getElem?_eq_none (Nat.le_of_not_lt outside)] at found
  cases found

theorem Extends.get? {newer older : ConstantTable} (grown : newer.Extends older) {slot : Nat}
    {constant : Constant} (found : older.get? slot = some constant) :
    newer.get? slot = some constant := by
  rwa [ConstantTable.get?, grown.slot (lt_size found)]

theorem mem_entries {table : ConstantTable} {slot : Nat} {constant : Constant} :
    (slot, constant) ∈ table.entries ↔ table.get? slot = some constant := by
  simp only [entries, List.mem_filterMap, Prod.exists, Option.map_eq_some_iff, Prod.mk.injEq,
    List.mk_mem_zipIdx_iff_getElem?, Array.getElem?_toList, ConstantTable.get?, Option.join_eq_some_iff]
  constructor
  · rintro ⟨content, place, found, held, rfl, rfl, rfl⟩
    exact found
  · intro found
    exact ⟨some constant, slot, found, constant, rfl, rfl, rfl⟩

theorem size_push (table : ConstantTable) (constant : Constant) :
    (table.push constant).size = table.size + constant.width := by
  unfold push size
  rcases constant.width_eq with single | wide
  · simp [single]
  · simp [wide]

theorem get?_push (table : ConstantTable) (constant : Constant) :
    (table.push constant).get? table.size = some constant := by
  unfold push ConstantTable.get? size
  simp only
  split
  · rw [Array.getElem?_push_lt (by simp), Array.getElem_push_eq]
    rfl
  · rw [Array.getElem?_push_size]
    rfl

theorem toList_push (table : ConstantTable) (constant : Constant) :
    (table.push constant).toList = table.toList ++ [constant] := by
  unfold push toList
  simp only
  split <;> simp

/-- Every slot holds a constant or is the second slot of the one before it, slot 0 apart. -/
def Aligned (table : ConstantTable) : Prop := ofList table.toList = table

theorem aligned_empty : empty.Aligned := rfl

theorem Aligned.push {table : ConstantTable} (aligned : table.Aligned) (constant : Constant) :
    (table.push constant).Aligned := by
  unfold Aligned ofList at aligned ⊢
  rw [toList_push, List.foldl_append, aligned]
  rfl

/-- The first slot that holds a constant. -/
def slotOf? (table : ConstantTable) (constant : Constant) : Option ConstantIndex :=
  (table.entries.find? fun entry => entry.2 == constant).map fun entry => UInt16.ofNat entry.1

/-- What was read from a table is read from every larger one. -/
def Stable {α : Type} (query : ConstantTable → Except Fault α) : Prop :=
  ∀ ⦃newer older : ConstantTable⦄ ⦃value : α⦄, newer.Extends older →
    query older = .ok value → query newer = .ok value

namespace Stable

variable {α β : Type}

theorem const (outcome : Except Fault α) : Stable fun _ => outcome := fun _ _ _ _ found => found

theorem bind {first : ConstantTable → Except Fault α}
    {next : α → ConstantTable → Except Fault β} (firstStable : Stable first)
    (nextStable : ∀ value, Stable (next value)) :
    Stable fun table => first table >>= fun value => next value table := by
  intro newer older result grown found
  obtain ⟨value, firstFound, later⟩ := Outcome.bind_ok.mp found
  exact Outcome.bind_ok.mpr ⟨value, firstStable grown firstFound, nextStable value grown later⟩

theorem map {query : ConstantTable → Except Fault α} (stable : Stable query) (change : α → β) :
    Stable fun table => change <$> query table := by
  intro newer older result grown found
  obtain ⟨value, queried, same⟩ := Outcome.map_ok.mp found
  exact Outcome.map_ok.mpr ⟨value, stable grown queried, same⟩

theorem mapM {action : α → ConstantTable → Except Fault β} (each : ∀ value, Stable (action value))
    (values : List α) : Stable fun table => values.mapM (action · table) := by
  induction values with
  | nil => exact const (.ok [])
  | cons value rest ih =>
    simp only [List.mapM_cons]
    exact (each value).bind fun first => ih.bind fun others => const (.ok (first :: others))

theorem constant (index : ConstantIndex) : Stable fun table => table.constant index := by
  intro newer older value grown (found : older.constant index = .ok value)
  unfold ConstantTable.constant at found
  split at found
  · rename_i constant isThere
    cases found
    change newer.constant index = .ok value
    rw [ConstantTable.constant, grown.get? isThere]
  · cases found

theorem utf8 (index : ConstantIndex) : Stable fun table => table.utf8 index :=
  (constant index).bind fun constant => by cases constant <;> exact const _

theorem classType (index : ConstantIndex) : Stable fun table => table.classType index := by
  refine (constant index).bind fun constant => ?_
  cases constant with
  | classRef name => exact (utf8 name).bind fun text => const _
  | _ => exact const _

theorem binaryName (index : ConstantIndex) : Stable fun table => table.binaryName index :=
  (classType index).bind fun type => by cases type <;> exact const _

theorem nameAndType (index : ConstantIndex) : Stable fun table => table.nameAndType index := by
  refine (constant index).bind fun constant => ?_
  cases constant with
  | nameAndType name descriptor =>
    exact (utf8 name).bind fun name => (utf8 descriptor).bind fun descriptor => const _
  | _ => exact const _

theorem nameAndDescriptor (parse : String → Except DescriptorError α) (index : ConstantIndex) :
    Stable fun table => table.nameAndDescriptor parse index :=
  (nameAndType index).bind fun _ => const _

theorem loadable (index : ConstantIndex) : Stable fun table => table.loadable index := by
  refine (constant index).bind fun constant => ?_
  cases constant with
  | string text => exact (utf8 text).bind fun text => const _
  | classRef name => exact (classType index).bind fun type => const _
  | dynamic bootstrap signature => exact (nameAndDescriptor _ signature).bind fun _ => const _
  | _ => exact const _

theorem fieldRef (index : ConstantIndex) : Stable fun table => table.fieldRef index := by
  refine (constant index).bind fun constant => ?_
  cases constant with
  | fieldRef owner signature =>
    exact (nameAndDescriptor _ signature).bind fun _ => (binaryName owner).bind fun _ => const _
  | _ => exact const _

theorem methodRef (index : ConstantIndex) : Stable fun table => table.methodRef index := by
  refine (constant index).bind fun constant => ?_
  cases constant with
  | methodRef owner signature isInterface =>
    exact (nameAndDescriptor _ signature).bind fun _ => (classType owner).bind fun _ => const _
  | _ => exact const _

theorem callSite (index : ConstantIndex) : Stable fun table => table.callSite index := by
  refine (constant index).bind fun constant => ?_
  cases constant with
  | invokeDynamic bootstrap signature =>
    exact (nameAndDescriptor _ signature).bind fun _ => const _
  | _ => exact const _

theorem operand (kind : OperandKind) (index : ConstantIndex) :
    Stable fun table => table.operand kind index := by
  cases kind with
  | classRef => exact classType index
  | loadable => exact loadable index
  | field => exact fieldRef index
  | method => exact methodRef index
  | callSite => exact callSite index

end Stable

theorem readSlots_size {table filled : ConstantTable} {count : Nat} {input rest : Input}
    (done : readSlots table count input = .ok (filled, rest)) :
    filled.size = table.size + count := by
  fun_induction readSlots table count generalizing input with
  | case1 table =>
    cases done
    rfl
  | case2 table =>
    obtain ⟨constant, middle, -, done⟩ := Reader.bind_ok.mp done
    split at done
    · cases done
    · rename_i narrow
      cases done
      have single := constant.single_of_not_wide narrow
      rw [size_push, single]
  | case3 table count ihWide ih =>
    obtain ⟨constant, middle, -, done⟩ := Reader.bind_ok.mp done
    split at done
    · rename_i wide
      rw [ihWide constant done, size_push, eq_of_beq wide]
      omega
    · rename_i narrow
      have single := constant.single_of_not_wide narrow
      rw [ih constant done, size_push, single]
      omega

/-- The size of a table that is read is counted in 16 bits. -/
theorem read_size {table : ConstantTable} {input rest : Input}
    (done : ConstantTable.read input = .ok (table, rest)) : table.size ≤ Pool.maxSlots := by
  obtain ⟨size, middle, -, done⟩ := Reader.bind_ok.mp done
  split at done
  · cases done
  · rename_i nonempty
    have positive : size.toNat ≠ 0 := fun zero =>
      nonempty (beq_iff_eq.mpr (UInt16.toNat_inj.mp zero))
    have bound : size.toNat < 2 ^ 16 := size.toNat_lt
    have filled := readSlots_size done
    rw [show empty.size = 1 from rfl] at filled
    unfold Pool.maxSlots
    omega

end ConstantTable

namespace Pool

/-- The slots can be counted in 16 bits, and every constant is in the slot noted for it. -/
structure Sound (pool : Pool) : Prop where
  size : pool.table.size ≤ maxSlots
  noted {constant : Constant} {index : ConstantIndex} : pool.firstSlot[constant]? = some index →
    pool.table.get? index.toNat = some constant

theorem empty_sound : empty.Sound := ⟨by decide, fun noted => by simp [empty] at noted⟩

/-- What becomes of a pool: its constants stay where they are, and are found there again. -/
structure Grown (before after : Pool) : Prop where
  kept : after.table.Extends before.table
  aligned : before.table.Aligned → after.table.Aligned
  sound : before.Sound → after.Sound
  noted {constant : Constant} {index : ConstantIndex} :
    before.firstSlot[constant]? = some index → after.firstSlot[constant]? = some index

theorem Grown.refl (pool : Pool) : pool.Grown pool := ⟨.refl _, id, id, id⟩

theorem Grown.trans {first second third : Pool} (earlier : first.Grown second)
    (later : second.Grown third) : first.Grown third :=
  ⟨later.kept.trans earlier.kept, fun aligned => later.aligned (earlier.aligned aligned),
    fun sound => later.sound (earlier.sound sound), fun noted => later.noted (earlier.noted noted)⟩

theorem toNat_ofNat_slot {slot : Nat} (bound : slot ≤ maxSlots) :
    (UInt16.ofNat slot).toNat = slot :=
  UInt16.toNat_ofNat_of_lt' (Nat.lt_succ_of_le bound)

theorem intern_grown (pool : Pool) (constant : Constant) : pool.Grown (pool.intern constant).2 := by
  unfold intern
  split
  · exact .refl pool
  · rename_i new
    simp only
    split
    · exact .refl pool
    · rename_i room
      have fits : pool.table.size + constant.width ≤ maxSlots := Nat.le_of_not_lt room
      refine ⟨.push _ _, fun aligned => aligned.push constant,
        fun sound => ⟨by rwa [ConstantTable.size_push], ?_⟩, ?_⟩
      · intro other index noted
        simp only at noted ⊢
        rw [Std.HashMap.getElem?_insert] at noted
        split at noted
        · rename_i same
          cases noted
          rw [toNat_ofNat_slot sound.size, ConstantTable.get?_push, eq_of_beq same]
        · exact (ConstantTable.Extends.push _ _).get? (sound.noted noted)
      · intro other index noted
        have different : constant ≠ other := by
          rintro rfl
          rw [new] at noted
          cases noted
        simpa [Std.HashMap.getElem?_insert, different] using noted

/-- A constant that is interned is found again. -/
theorem intern_noted {pool : Pool} {constant : Constant} {index : ConstantIndex}
    (interned : (pool.intern constant).1 = .ok index) :
    (pool.intern constant).2.firstSlot[constant]? = some index := by
  unfold intern at interned ⊢
  split at interned
  · rename_i noted
    cases interned
    simp [noted]
  · rename_i new
    simp only at interned ⊢
    split at interned
    · cases interned
    · rename_i room
      cases interned
      simp [room]

/-- The index that a constant is interned under leads back to it. -/
theorem Sound.intern {pool : Pool} (sound : pool.Sound) {constant : Constant}
    {index : ConstantIndex} (interned : (pool.intern constant).1 = .ok index) :
    (pool.intern constant).2.table.get? index.toNat = some constant := by
  unfold Pool.intern at interned ⊢
  split at interned
  · rename_i noted
    cases interned
    simpa [noted] using sound.noted noted
  · rename_i new
    simp only at interned ⊢
    split at interned
    · cases interned
    · rename_i room
      cases interned
      rw [if_neg room, toNat_ofNat_slot sound.size, ConstantTable.get?_push]

private theorem foldl_insertIfNew {pairs : List (Nat × Constant)}
    {seen : Std.HashMap Constant ConstantIndex} {constant : Constant} :
    (pairs.foldl (fun seen (slot, constant) =>
      seen.insertIfNew constant (UInt16.ofNat slot)) seen)[constant]? =
    (seen[constant]?).or ((pairs.find? fun pair => pair.2 == constant).map
      fun pair => UInt16.ofNat pair.1) := by
  induction pairs generalizing seen with
  | nil => simp
  | cons pair rest ih =>
    rw [List.foldl_cons, ih, List.find?_cons]
    simp only [Std.HashMap.getElem?_insertIfNew]
    cases same : pair.2 == constant with
    | false => simp
    | true =>
      cases earlier : seen[constant]? with
      | none =>
        have new : constant ∉ seen := by simpa using earlier
        simp [eq_of_beq same, new]
      | some index =>
        have known : constant ∈ seen := Std.HashMap.mem_iff_isSome_getElem?.mpr (by simp [earlier])
        simp [eq_of_beq same, known]

theorem ofTable_firstSlot (table : ConstantTable) (constant : Constant) :
    (ofTable table).firstSlot[constant]? = table.slotOf? constant := by
  unfold ofTable
  rw [foldl_insertIfNew, ConstantTable.slotOf?]
  simp

theorem ofTable_sound {table : ConstantTable} (bound : table.size ≤ maxSlots) :
    (ofTable table).Sound := by
  refine ⟨bound, fun {constant index} noted => ?_⟩
  rw [ofTable_firstSlot, ConstantTable.slotOf?, Option.map_eq_some_iff] at noted
  obtain ⟨⟨slot, holds⟩, found, rfl⟩ := noted
  have same : holds = constant := by simpa using List.find?_some found
  have isThere := ConstantTable.mem_entries.mp (List.mem_of_find?_eq_some found)
  rw [toNat_ofNat_slot (Nat.le_trans (Nat.le_of_lt (ConstantTable.lt_size isThere)) bound), ← same]
  exact isThere

end Pool

/-- An action only adds constants, also if it fails. -/
def PoolM.Grows {ε α : Type} (action : ExceptT ε (StateM Pool) α) : Prop :=
  ∀ pool : Pool, pool.Grown (action.run.run pool).2

namespace PoolM

variable {ε α β : Type}

theorem grows_pure (value : α) : Grows (pure value : ExceptT ε (StateM Pool) α) := fun pool =>
  .refl pool

theorem grows_throw (fault : ε) : Grows (throw fault : ExceptT ε (StateM Pool) α) := fun pool =>
  .refl pool

theorem grows_lookup (query : ConstantTable → Except Fault α) : Grows (lookup query) := fun pool =>
  .refl pool

theorem grows_lift (outcome : Except ε α) : Grows (liftM outcome : ExceptT ε (StateM Pool) α) := by
  intro pool
  cases outcome <;> exact .refl pool

theorem grows_intern (constant : Constant) : Grows (intern constant) := fun pool =>
  pool.intern_grown constant

theorem Grows.bind {action : ExceptT ε (StateM Pool) α} {next : α → ExceptT ε (StateM Pool) β}
    (first : Grows action) (later : ∀ value, Grows (next value)) : Grows (action >>= next) := by
  intro pool
  change pool.Grown ((action >>= next) pool).2
  have grown : pool.Grown (action pool).2 := first pool
  rw [Outcome.bind_apply]
  rcases outcome : action pool with ⟨fault | value, middle⟩ <;> rw [outcome] at grown
  · exact grown
  · exact grown.trans (later value middle)

theorem Grows.map {action : ExceptT ε (StateM Pool) α} (grows : Grows action) (change : α → β) :
    Grows (change <$> action) := by
  rw [map_eq_pure_bind]
  exact grows.bind fun _ => grows_pure _

theorem grows_mapM {action : α → ExceptT ε (StateM Pool) β} (each : ∀ value, Grows (action value))
    (values : List α) : Grows (values.mapM action) := by
  induction values with
  | nil =>
    rw [List.mapM_nil]
    exact grows_pure _
  | cons value rest ih =>
    rw [List.mapM_cons]
    exact (each value).bind fun _ => ih.bind fun _ => grows_pure _

/-- An action that does no more with the pool than to add constants. -/
inductive Interning : {α : Type} → PoolM α → Prop where
  | pure {α : Type} (value : α) : Interning (pure value)
  | intern (constant : Constant) : Interning (intern constant)
  | bind {α β : Type} {action : PoolM α} {next : α → PoolM β} (first : Interning action)
      (later : ∀ value, Interning (next value)) : Interning (action >>= next)

theorem Interning.grows {action : PoolM α} (interning : Interning action) : Grows action := by
  induction interning with
  | pure value => exact grows_pure value
  | intern constant => exact grows_intern constant
  | bind _ _ first later => exact first.bind later

theorem Interning.map {action : PoolM α} (interning : Interning action) (change : α → β) :
    Interning (change <$> action) := by
  rw [map_eq_pure_bind]
  exact interning.bind fun _ => .pure _

theorem interning_mapM {action : α → PoolM β} (each : ∀ value, Interning (action value))
    (values : List α) : Interning (values.mapM action) := by
  induction values with
  | nil =>
    rw [List.mapM_nil]
    exact .pure _
  | cons value rest ih =>
    rw [List.mapM_cons]
    exact (each value).bind fun _ => ih.bind fun _ => .pure _

theorem interning_utf8 (text : String) : Interning (utf8 text) := .intern _

theorem interning_className (name : String) : Interning (className name) :=
  (interning_utf8 name).bind fun _ => .intern _

theorem interning_nameAndType (name : UnqualifiedName) (descriptor : String) :
    Interning (nameAndType name descriptor) :=
  (interning_utf8 _).bind fun _ => (interning_utf8 _).bind fun _ => .intern _

theorem interning_operand (kind : OperandKind) (operand : Symbolic kind) :
    Interning (PoolM.operand kind operand) := by
  cases kind with
  | classRef => exact interning_className _
  | loadable =>
    cases operand with
    | string text => exact (interning_utf8 text).bind fun _ => .intern _
    | classRef type => exact interning_className _
    | int | float | long | double => exact .intern _
    | methodType | methodHandle | dynamic => exact .pure _
  | field =>
    exact (interning_className _).bind fun _ => (interning_nameAndType _ _).bind fun _ => .intern _
  | method =>
    exact (interning_className _).bind fun _ => (interning_nameAndType _ _).bind fun _ => .intern _
  | callSite => exact .pure _

theorem Grows.yields {action : PoolM α} (grows : Grows action) {before after : Pool} {value : α}
    (done : Yields action before value after) : before.Grown after := by
  have grown := grows before
  rwa [show action.run.run before = (.ok value, after) from done] at grown

/-- Each result is found with a pool on the way from the first one to the last one. -/
theorem YieldsEach.forall₂ {action : α → PoolM β} (grows : ∀ value, Grows (action value))
    {values : List α} {results : List β} {before after : Pool}
    (each : YieldsEach action values before results after) :
    before.Grown after ∧ List.Forall₂ (fun value result => ∃ earlier later,
      before.Grown earlier ∧ Yields (action value) earlier result later ∧ later.Grown after)
        values results := by
  induction each with
  | nil => exact ⟨.refl _, .nil⟩
  | cons first _ ih =>
    obtain ⟨grown, others⟩ := ih
    have here := (grows _).yields first
    refine ⟨here.trans grown, .cons ⟨_, _, .refl _, first, grown⟩ (others.imp ?_)⟩
    rintro value result ⟨earlier, later, reached, done, finished⟩
    exact ⟨earlier, later, here.trans reached, done, finished⟩

end PoolM

end ClassWeave
