import ClassWeave.Hook.Trigger
import ClassWeave.Proofs.Code.Labels
import ClassWeave.Proofs.Typing.Flow

/-!
# Putting a hook into a body

A hooked body is the original with one hook put in. The items behind the hook move, labels and
handlers go with them, and since the labels of the hook are new, none of the original ones leads
into it.
-/

namespace ClassWeave

namespace Body

/-- The body with a hook before the item at a position. -/
def splice (body : Body) (position : Nat) (hook : List Item) (nextLabel : Label) : Body :=
  { body with
    items := body.items.take position ++ hook ++ body.items.drop position
    nextLabel }

/-- Where an item goes when a hook of some width is put in. -/
def shift (position width place : Nat) : Nat :=
  if place < position then place else place + width

theorem shift_lt_shift {position width first second : Nat} :
    shift position width first < shift position width second ↔ first < second := by
  simp only [shift]
  split <;> split <;> omega

theorem shift_le_shift {position width first second : Nat} :
    shift position width first ≤ shift position width second ↔ first ≤ second := by
  rw [← Nat.not_lt, ← Nat.not_lt, shift_lt_shift]

/-- Control that goes on gets to the hook or behind it. -/
theorem shift_next {position width place : Nat} :
    shift position width place + 1 =
      if place + 1 = position then position else shift position width (place + 1) := by
  simp only [shift]
  split <;> split <;> try split
  all_goals omega

/-- Every position is that of an item that has been there before, or in the hook. -/
theorem shift_or_inside (position width place : Nat) :
    (∃ origin, shift position width origin = place) ∨
      ∃ index < width, position + index = place := by
  by_cases before : place < position
  · exact .inl ⟨place, if_pos before⟩
  · by_cases inside : place < position + width
    · exact .inr ⟨place - position, by omega, by omega⟩
    · refine .inl ⟨place - width, ?_⟩
      rw [shift, if_neg (by omega)]
      omega

variable {body : Body} {position : Nat} {hook : List Item} {nextLabel : Label}

theorem splice_shift (within : position ≤ body.items.length) (place : Nat) :
    (body.splice position hook nextLabel).items[shift position hook.length place]? =
      body.items[place]? := by
  have taken : (body.items.take position).length = position := List.length_take_of_le within
  simp only [splice, shift]
  split
  · rename_i before
    rw [List.append_assoc, List.getElem?_append_left (by omega), List.getElem?_take_of_lt before]
  · rename_i behind
    rw [List.getElem?_append_right (by simp only [List.length_append]; omega), List.getElem?_drop]
    congr 1
    simp only [List.length_append]
    omega

theorem splice_inside (within : position ≤ body.items.length) {index : Nat}
    (inside : index < hook.length) :
    (body.splice position hook nextLabel).items[position + index]? = hook[index]? := by
  have taken : (body.items.take position).length = position := List.length_take_of_le within
  rw [splice, List.getElem?_append_left (by simp only [List.length_append]; omega),
    List.getElem?_append_right (by omega), taken, Nat.add_sub_cancel_left]

theorem splice_hasAt (within : position ≤ body.items.length) :
    (body.splice position hook nextLabel).HasAt position hook := fun index item there => by
  rw [splice_inside within (List.getElem?_eq_some_iff.mp there).1, there]

theorem splice_labelAt_shift (within : position ≤ body.items.length) {label : Label} {place : Nat} :
    (body.splice position hook nextLabel).LabelAt label (shift position hook.length place) ↔
      body.LabelAt label place := by
  rw [LabelAt, LabelAt, splice_shift within]

/-- Labels that are not in the hook lead to where they led before. -/
theorem splice_labelAt (within : position ≤ body.items.length) {label : Label}
    (outside : .label label ∉ hook) {place : Nat} :
    (body.splice position hook nextLabel).LabelAt label place ↔
      ∃ origin, shift position hook.length origin = place ∧ body.LabelAt label origin := by
  constructor
  · intro placed
    rcases shift_or_inside position hook.length place with ⟨origin, rfl⟩ | ⟨index, inside, rfl⟩
    · exact ⟨origin, rfl, (splice_labelAt_shift within).mp placed⟩
    · rw [LabelAt, splice_inside within inside] at placed
      exact (outside (List.mem_of_getElem? placed)).elim
  · rintro ⟨origin, rfl, placed⟩
    exact (splice_labelAt_shift within).mpr placed

/-- Handlers stay in charge of what they were in charge of. -/
theorem splice_protects (within : position ≤ body.items.length) {handler : Handler}
    (start : .label handler.start ∉ hook) (stop : .label handler.stop ∉ hook) {place : Nat} :
    (body.splice position hook nextLabel).Protects handler (shift position hook.length place) ↔
      body.Protects handler place := by
  constructor
  · rintro ⟨member, isCode, _, _, startPlaced, stopPlaced, above, below⟩
    rw [splice_shift within] at isCode
    obtain ⟨first, rfl, firstPlaced⟩ := (splice_labelAt within start).mp startPlaced
    obtain ⟨last, rfl, lastPlaced⟩ := (splice_labelAt within stop).mp stopPlaced
    exact ⟨member, isCode, first, last, firstPlaced, lastPlaced, shift_le_shift.mp above,
      shift_lt_shift.mp below⟩
  · rintro ⟨member, isCode, first, last, firstPlaced, lastPlaced, above, below⟩
    rw [← splice_shift within] at isCode
    exact ⟨member, isCode, _, _, (splice_labelAt_shift within).mpr firstPlaced,
      (splice_labelAt_shift within).mpr lastPlaced, shift_le_shift.mpr above,
      shift_lt_shift.mpr below⟩

end Body

namespace TriggerSearch

variable {plan : HookPlan} {search : TriggerSearch}

/-- Going over an item, the search adds nothing and uses no labels, or places the hook. -/
theorem advance_cases (plan : HookPlan) (search : TriggerSearch) (item : Item) :
    (∃ phase, search.advance plan item = (⟨phase, search.nextLabel⟩, []) ∧
      (phase = .done ↔ search.phase = .done)) ∨
    search.phase ≠ .done ∧ ∃ slot, search.advance plan item = search.placeHook plan slot := by
  obtain ⟨phase, nextLabel⟩ := search
  unfold advance
  simp only
  split
  · split
    · exact .inl ⟨_, rfl, by simp⟩
    · exact .inl ⟨_, rfl, by simp⟩
  · split
    · exact .inl ⟨_, rfl, by simp⟩
    · exact .inl ⟨_, rfl, by simp⟩
    · split
      · exact .inr ⟨by simp, _, rfl⟩
      · exact .inl ⟨_, rfl, by simp⟩
  · split
    · exact .inl ⟨_, rfl, by simp⟩
    · exact .inl ⟨_, rfl, by simp⟩
  · split
    · exact .inr ⟨by simp, _, rfl⟩
    · exact .inl ⟨_, rfl, by simp⟩
  · exact .inl ⟨_, rfl, Iff.rfl⟩

/-- After the hook has been placed, nothing more is added. -/
theorem finish_done (done : search.phase = .done) (seen rest : List Item) :
    search.finish plan seen rest = (search, seen.reverse ++ rest) := by
  induction rest generalizing search seen with
  | nil => simp [finish]
  | cons item rest ih =>
    rcases advance_cases plan search item with ⟨phase, advanced, kept⟩ | ⟨other, -⟩
    · rw [finish, advanced]
      simp only
      rw [ih (kept.mpr done)]
      obtain ⟨_, _⟩ := search
      simp_all
    · exact (other done).elim

/-- A search that ends well places the hook once. -/
theorem finish_places (unplaced : search.phase ≠ .done) {seen rest : List Item}
    (found : (search.finish plan seen rest).1.phase = .done) :
    ∃ count slot, count ≤ rest.length ∧ search.finish plan seen rest =
      (⟨.done, HookSite.nextLabel plan.target.shape search.nextLabel⟩,
        seen.reverse ++ rest.take count
          ++ HookSite.items plan.call plan.target slot search.nextLabel ++ rest.drop count) := by
  induction rest generalizing search seen with
  | nil => exact (unplaced found).elim
  | cons item rest ih =>
    rcases advance_cases plan search item with ⟨phase, advanced, kept⟩ | ⟨-, slot, placed⟩
    · rw [finish, advanced] at found ⊢
      simp only at found ⊢
      obtain ⟨count, slot, inside, finished⟩ := ih (fun done => unplaced (kept.mp done)) found
      refine ⟨count + 1, slot, Nat.succ_le_succ inside, ?_⟩
      rw [finished]
      simp
    · refine ⟨1, slot, Nat.succ_le_succ (Nat.zero_le _), ?_⟩
      rw [finish, placed, placeHook]
      simp only
      rw [finish_done rfl]
      simp

/-- At the start of a method the hook is placed, or the search is for a call. -/
theorem begin_cases (plan : HookPlan) (nextLabel : Label) :
    (∃ slot, begin plan nextLabel = placeHook plan ⟨.start, nextLabel⟩ slot) ∨
      begin plan nextLabel = (⟨.awaitingCall, nextLabel⟩, []) := by
  unfold begin
  simp only
  split
  · exact .inl ⟨_, rfl⟩
  · exact .inl ⟨_, rfl⟩
  · exact .inr rfl

end TriggerSearch

/-- A hooked body is the body with one hook put in. -/
theorem HookPlan.hooked_splice {plan : HookPlan} {body hooked : Body}
    (found : plan.hooked? body = some hooked) :
    ∃ position slot, position ≤ body.items.length ∧ hooked = body.splice position
      (HookSite.items plan.call plan.target slot body.nextLabel)
      (HookSite.nextLabel plan.target.shape body.nextLabel) := by
  unfold hooked? at found
  rcases TriggerSearch.begin_cases plan body.nextLabel with ⟨slot, placed⟩ | waiting
  · rw [placed, TriggerSearch.placeHook] at found
    simp only at found
    rw [TriggerSearch.finish_done rfl] at found
    refine ⟨0, slot, Nat.zero_le _, ?_⟩
    simpa [Body.splice] using found.symm
  · rw [waiting] at found
    simp only at found
    split at found
    · rename_i done
      obtain ⟨position, slot, within, finished⟩ :=
        TriggerSearch.finish_places (by simp) done
      rw [finished] at found
      exact ⟨position, slot, within, by simpa [Body.splice] using found.symm⟩
    · cases found

/-- The plan puts its hook into a body, behind an item that accesses the local with the object. -/
structure HookPlan.HooksBehind (plan : HookPlan) (body hooked : Body) (place : Nat) (slot : UInt16) :
    Prop where
  found : plan.hooked? body = some hooked
  accesses : ∃ step, body.items[place]? = some (.instruction step) ∧ step.accessedSlot? = some slot
  spliced : hooked = body.splice (place + 1)
    (HookSite.items plan.call plan.target slot body.nextLabel)
    (HookSite.nextLabel plan.target.shape body.nextLabel)

end ClassWeave
