import Mathlib.Data.List.Range
import Mathlib.Data.Nat.Find
import ClassWeave.Proofs.Constant.Growth

/-!
# Pools are sets of constants

Whatever is asked of a pool, it holds each constant in the first slot that it was put into, and
knows that slot. It only refuses a constant that it does not hold and has no room for, and then
nothing changes.
-/

namespace ClassWeave

namespace ConstantTable

variable {table : ConstantTable} {constant other : Constant} {slot : Nat}

/-- The smallest slot that holds a constant. -/
structure FirstAt (table : ConstantTable) (constant : Constant) (slot : Nat) : Prop where
  holds : table.get? slot = some constant
  first : ∀ earlier < slot, table.get? earlier ≠ some constant

/-- The constant is in none of the slots. -/
def Lacks (table : ConstantTable) (constant : Constant) : Prop :=
  ∀ slot, table.get? slot ≠ some constant

/-- Every constant has room for all of it, and nothing is found in its second slot. -/
structure Spaced (table : ConstantTable) : Prop where
  inside {slot : Nat} {constant : Constant} :
    table.get? slot = some constant → slot + constant.width ≤ table.size
  second {slot : Nat} {constant : Constant} :
    table.get? slot = some constant → constant.width = 2 → table.get? (slot + 1) = none

theorem exists_firstAt (present : ¬ table.Lacks constant) : ∃ slot, table.FirstAt constant slot := by
  have somewhere : ∃ slot, table.get? slot = some constant := by
    simpa only [Lacks, not_forall, not_not] using present
  classical
  exact ⟨Nat.find somewhere, Nat.find_spec somewhere, fun _ => Nat.find_min somewhere⟩

theorem get?_outside (outside : table.size ≤ slot) : table.get? slot = none := by
  rw [get?, Array.getElem?_eq_none outside]
  rfl

/-- What is in a table after a constant has been put at its end. -/
theorem get?_push_iff : (table.push constant).get? slot = some other ↔
    table.get? slot = some other ∨ slot = table.size ∧ other = constant := by
  rcases Nat.lt_trichotomy slot table.size with inside | rfl | outside
  · rw [get?, (Extends.push table constant).slot inside]
    change table.get? slot = some other ↔ _
    simp [Nat.ne_of_lt inside]
  · rw [get?_push, get?_outside (Nat.le_refl _)]
    simp [eq_comm]
  · -- the slot after the new constant, if there is one, is empty
    have nothing : (table.push constant).get? slot = none := by
      unfold push get? size at *
      simp only
      split
      · rw [Array.getElem?_push, Array.getElem?_push]
        grind
      · rw [Array.getElem?_push]
        grind
    rw [nothing, get?_outside (Nat.le_of_lt outside)]
    simp [Nat.ne_of_gt outside]

theorem empty_get? : empty.get? slot = none := by
  cases slot <;> rfl

theorem empty_spaced : empty.Spaced :=
  ⟨fun found => by simp [empty_get?] at found, fun found => by simp [empty_get?] at found⟩

theorem Spaced.push (spaced : table.Spaced) (constant : Constant) :
    (table.push constant).Spaced where
  inside found := by
    rw [size_push]
    rcases get?_push_iff.mp found with earlier | ⟨rfl, rfl⟩
    · exact (spaced.inside earlier).trans (Nat.le_add_right _ _)
    · exact Nat.le_refl _
  second {slot held} found wide := by
    refine Option.eq_none_iff_forall_ne_some.mpr fun another there => ?_
    rcases get?_push_iff.mp found with earlier | ⟨rfl, rfl⟩
    · have room := spaced.inside earlier
      rcases get?_push_iff.mp there with before | ⟨atEnd, -⟩
      · rw [spaced.second earlier wide] at before
        cases before
      · omega
    · rcases get?_push_iff.mp there with before | ⟨atEnd, -⟩
      · rw [get?_outside (Nat.le_succ _)] at before
        cases before
      · omega

theorem ofList_spaced (constants : List Constant) : (ofList constants).Spaced := by
  induction constants using List.reverseRecOn with
  | nil => exact empty_spaced
  | append_singleton constants constant ih =>
    rw [ofList, List.foldl_append]
    exact ih.push constant

theorem size_ofList (constants : List Constant) :
    (ofList constants).size = 1 + (constants.map Constant.width).sum := by
  induction constants using List.reverseRecOn with
  | nil => rfl
  | append_singleton constants constant ih =>
    rw [ofList, List.foldl_append, List.foldl_cons, List.foldl_nil, size_push]
    rw [ofList] at ih
    rw [ih]
    simp [Nat.add_assoc]

/-- A new constant is in its slot only, and all others are where they were. -/
theorem firstAt_push (new : table.Lacks constant) : (table.push constant).FirstAt other slot ↔
    table.FirstAt other slot ∨ slot = table.size ∧ other = constant := by
  constructor
  · rintro ⟨holds, first⟩
    rcases get?_push_iff.mp holds with earlier | added
    · exact .inl ⟨earlier, fun before isBefore found =>
        first before isBefore (get?_push_iff.mpr (.inl found))⟩
    · exact .inr added
  · rintro (⟨holds, first⟩ | ⟨rfl, rfl⟩)
    · refine ⟨get?_push_iff.mpr (.inl holds), fun before isBefore found => ?_⟩
      rcases get?_push_iff.mp found with earlier | ⟨-, rfl⟩
      · exact first before isBefore earlier
      · exact new slot holds
    · refine ⟨get?_push table other, fun before isBefore found => ?_⟩
      rcases get?_push_iff.mp found with earlier | ⟨atEnd, -⟩
      · exact new before earlier
      · omega

theorem entries_ascend (table : ConstantTable) :
    table.entries.Pairwise fun before after => before.1 < after.1 := by
  refine List.pairwise_filterMap.mpr ?_
  have numbered : (table.slots.toList.zipIdx.map Prod.snd).Pairwise (· < ·) := by
    rw [List.zipIdx_map_snd]
    exact List.pairwise_lt_range'
  refine (List.pairwise_map.mp numbered).imp fun {before after} ascends first isFirst second
    isSecond => ?_
  obtain ⟨_, -, rfl⟩ := Option.map_eq_some_iff.mp isFirst
  obtain ⟨_, -, rfl⟩ := Option.map_eq_some_iff.mp isSecond
  exact ascends

/-- Looking through ascending entries leads to the lowest that passes. -/
private theorem find?_lowest {entries : List (Nat × Constant)}
    (ascends : entries.Pairwise fun before after => before.1 < after.1)
    {passes : Nat × Constant → Bool} {found entry : Nat × Constant}
    (isFound : entries.find? passes = some found) (member : entry ∈ entries)
    (passing : passes entry = true) : found.1 ≤ entry.1 := by
  induction ascends with
  | nil => cases member
  | @cons head rest above _ ih =>
    rw [List.find?_cons] at isFound
    cases here : passes head with
    | true =>
      rw [here] at isFound
      cases isFound
      rcases List.mem_cons.mp member with rfl | later
      · exact Nat.le_refl _
      · exact Nat.le_of_lt (above entry later)
    | false =>
      rw [here] at isFound
      rcases List.mem_cons.mp member with rfl | later
      · rw [here] at passing
        cases passing
      · exact ih isFound later

theorem slotOf?_eq_some_iff (bound : table.size ≤ Pool.maxSlots) {index : ConstantIndex} :
    table.slotOf? constant = some index ↔ table.FirstAt constant index.toNat := by
  have noted {slot : Nat} (first : table.FirstAt constant slot) :
      table.slotOf? constant = some (UInt16.ofNat slot) := by
    have listed := mem_entries.mpr first.holds
    have somewhere : (table.entries.find? fun entry => entry.2 == constant).isSome :=
      List.find?_isSome.mpr ⟨_, listed, beq_self_eq_true constant⟩
    obtain ⟨⟨found, held⟩, isFound⟩ := Option.isSome_iff_exists.mp somewhere
    have lowest := find?_lowest (entries_ascend table) isFound listed (beq_self_eq_true constant)
    have same : held = constant := by simpa using List.find?_some isFound
    have isThere := mem_entries.mp (List.mem_of_find?_eq_some isFound)
    rw [same] at isThere
    have notBefore : ¬ found < slot := fun before => first.first found before isThere
    have equal : found = slot := Nat.le_antisymm lowest (Nat.le_of_not_lt notBefore)
    rw [slotOf?, isFound, Option.map_some, equal]
  constructor
  · intro known
    have present : ¬ table.Lacks constant := by
      intro absent
      obtain ⟨⟨slot, held⟩, isFound, -⟩ := Option.map_eq_some_iff.mp known
      have same : held = constant := by simpa using List.find?_some isFound
      exact absent slot (same ▸ mem_entries.mp (List.mem_of_find?_eq_some isFound))
    obtain ⟨slot, first⟩ := exists_firstAt present
    cases Option.some.inj ((noted first).symm.trans known)
    rwa [Pool.toNat_ofNat_slot ((Nat.le_of_lt (lt_size first.holds)).trans bound)]
  · intro first
    rw [noted first, UInt16.ofNat_toNat]

end ConstantTable

namespace Pool

variable {pool : Pool} {constant : Constant}

/-- The pool knows the first slot of each of its constants, and no other slot. -/
structure Indexed (pool : Pool) : Prop where
  size : pool.table.size ≤ maxSlots
  spaced : pool.table.Spaced
  first {constant : Constant} {index : ConstantIndex} :
    pool.firstSlot[constant]? = some index ↔ pool.table.FirstAt constant index.toNat

/-- What a request does to a pool. -/
inductive Interns (pool : Pool) (constant : Constant) : Except Fault ConstantIndex × Pool → Prop
  | found {index : ConstantIndex} (first : pool.table.FirstAt constant index.toNat) :
      Interns pool constant (.ok index, pool)
  | added (new : pool.table.Lacks constant)
      (room : pool.table.size + constant.width ≤ maxSlots) :
      Interns pool constant (.ok (UInt16.ofNat pool.table.size), ⟨pool.table.push constant,
        pool.firstSlot.insert constant (UInt16.ofNat pool.table.size)⟩)
  | refused (new : pool.table.Lacks constant)
      (full : maxSlots < pool.table.size + constant.width) :
      Interns pool constant (.error (.poolOverflow pool.table.size), pool)

theorem ofTable_indexed {constants : List Constant}
    (bound : (ConstantTable.ofList constants).size ≤ maxSlots) :
    (ofTable (.ofList constants)).Indexed where
  size := bound
  spaced := ConstantTable.ofList_spaced constants
  first {constant index} := by
    rw [ofTable_firstSlot]
    exact ConstantTable.slotOf?_eq_some_iff bound

namespace Indexed

variable (indexed : pool.Indexed)

include indexed

theorem toNat_slot {slot : Nat} (first : pool.table.FirstAt constant slot) :
    (UInt16.ofNat slot).toNat = slot :=
  toNat_ofNat_slot ((Nat.le_of_lt (ConstantTable.lt_size first.holds)).trans indexed.size)

theorem lacks_iff : pool.table.Lacks constant ↔ pool.firstSlot[constant]? = none := by
  constructor
  · intro absent
    refine Option.eq_none_iff_forall_ne_some.mpr fun index noted => ?_
    exact absent index.toNat (indexed.first.mp noted).holds
  · intro unnoted
    by_contra present
    obtain ⟨slot, isFirst⟩ := ConstantTable.exists_firstAt present
    have noted := indexed.first.mpr ((indexed.toNat_slot isFirst).symm ▸ isFirst)
    rw [unnoted] at noted
    cases noted

theorem interns (constant : Constant) : pool.Interns constant (pool.intern constant) := by
  unfold intern
  split
  · rename_i index noted
    exact .found (indexed.first.mp noted)
  · rename_i unnoted
    have new := indexed.lacks_iff.mpr unnoted
    simp only
    split
    · rename_i full
      exact .refused new full
    · rename_i room
      exact .added new (Nat.le_of_not_lt room)

/-- A request leaves the pool with the first slots of its constants. -/
theorem intern (constant : Constant) : (pool.intern constant).2.Indexed := by
  rcases outcome : pool.intern constant with ⟨answer, after⟩
  have asked := indexed.interns constant
  rw [outcome] at asked
  cases asked with
  | found | refused => exact indexed
  | added new room =>
    refine ⟨by rwa [ConstantTable.size_push], indexed.spaced.push constant, ?_⟩
    intro other index
    have atEnd : index.toNat = pool.table.size ↔ UInt16.ofNat pool.table.size = index := by
      rw [← UInt16.toNat_inj, toNat_ofNat_slot indexed.size]
      exact eq_comm
    rw [Std.HashMap.getElem?_insert, ConstantTable.firstAt_push new, atEnd]
    by_cases same : constant = other
    · subst same
      have notEarlier : ¬ pool.table.FirstAt constant index.toNat := fun first =>
        new index.toNat first.holds
      simp [notEarlier]
    · simp [same, Ne.symm same, indexed.first]

end Indexed

/-- The pool after a list of requests, whether they could be met or not. -/
def afterAll (pool : Pool) (requests : List Constant) : Pool :=
  requests.foldl (fun pool constant => (pool.intern constant).2) pool

theorem Indexed.afterAll (indexed : pool.Indexed) (requests : List Constant) :
    (pool.afterAll requests).Indexed := by
  induction requests generalizing pool with
  | nil => exact indexed
  | cons constant rest ih => exact ih (indexed.intern constant)

theorem afterAll_grown (pool : Pool) (requests : List Constant) :
    pool.Grown (pool.afterAll requests) := by
  induction requests generalizing pool with
  | nil => exact .refl pool
  | cons constant rest ih => exact (pool.intern_grown constant).trans (ih _)

/-- What is true of a pool whatever is asked of it next. -/
structure AppendOnly (pool : Pool) : Prop where
  /-- The slots can be counted in 16 bits. -/
  size : pool.table.size ≤ maxSlots
  /-- The constants stay where they are. -/
  kept (requests : List Constant) {slot : Nat} {constant : Constant} :
    pool.table.get? slot = some constant →
      (pool.afterAll requests).table.get? slot = some constant
  /-- A request that is met is answered with the smallest slot of the constant. -/
  first {constant : Constant} {index : ConstantIndex} :
    (pool.intern constant).1 = .ok index →
      (pool.intern constant).2.table.FirstAt constant index.toNat
  /-- It is answered so for good, and nothing is added again. -/
  again (requests : List Constant) {constant : Constant} {index : ConstantIndex} :
    (pool.intern constant).1 = .ok index →
      ((pool.intern constant).2.afterAll requests).intern constant =
        (.ok index, (pool.intern constant).2.afterAll requests)
  /-- A request that is refused changes nothing. -/
  refused {constant : Constant} {fault : Fault} :
    (pool.intern constant).1 = .error fault → (pool.intern constant).2 = pool
  /-- Only constants that are missing and do not fit are refused. -/
  refused_iff {constant : Constant} : (∃ fault, (pool.intern constant).1 = .error fault) ↔
    pool.table.Lacks constant ∧ maxSlots < pool.table.size + constant.width
  /-- Nothing is found in the second slot of a number of eight bytes. -/
  second {slot : Nat} {constant : Constant} :
    pool.table.get? slot = some constant → constant.width = 2 → pool.table.get? (slot + 1) = none

theorem Indexed.appendOnly (indexed : pool.Indexed) : pool.AppendOnly where
  size := indexed.size
  kept requests _ _ found := (pool.afterAll_grown requests).kept.get? found
  first {constant index} met :=
    (indexed.intern constant).first.mp (intern_noted met)
  again requests constant index met := by
    have noted := (afterAll_grown (pool.intern constant).2 requests).noted (intern_noted met)
    rw [Pool.intern, noted]
  refused {constant fault} failed := by
    rcases outcome : pool.intern constant with ⟨answer, after⟩
    have asked := indexed.interns constant
    rw [outcome] at asked failed
    cases asked with
    | found | added => cases failed
    | refused => rfl
  refused_iff {constant} := by
    rcases outcome : pool.intern constant with ⟨answer, after⟩
    have asked := indexed.interns constant
    rw [outcome] at asked
    cases asked with
    | found first =>
      have present : ¬ pool.table.Lacks constant := fun absent => absent _ first.holds
      simp [present]
    | added new room => simp [new, Nat.not_lt.mpr room]
    | refused new full => simp [new, full]
  second := indexed.spaced.second

/-- A pool that starts from the constants of a class file is a set at any time: whatever has been
asked of it so far, constants keep their slots, each has one slot that it is answered with, and a
request that is refused leaves no trace. -/
theorem afterAll_appendOnly {constants : List Constant}
    (bound : (ConstantTable.ofList constants).size ≤ maxSlots) (requests : List Constant) :
    ((ofTable (.ofList constants)).afterAll requests).AppendOnly :=
  ((ofTable_indexed bound).afterAll requests).appendOnly

/-- One slot is left, which the second request is for. The first one needs two. -/
theorem crowded_appendOnly :
    (ConstantTable.ofList (List.replicate 65533 (.integer 7))).size ≤ maxSlots ∧
    ((ofTable (.ofList (List.replicate 65533 (.integer 7)))).afterAll
      [.long 7, .float 0x80000000, .integer 7]).AppendOnly := by
  have size (count : Nat) :
      (ConstantTable.ofList (List.replicate count (.integer 7))).size = 1 + count := by
    rw [ConstantTable.size_ofList, List.map_replicate, List.sum_replicate_nat]
    simp [Constant.width]
  have bound : (ConstantTable.ofList (List.replicate 65533 (.integer 7))).size ≤ maxSlots :=
    (size 65533).trans_le (by decide)
  exact ⟨bound, afterAll_appendOnly bound _⟩

end Pool

end ClassWeave
