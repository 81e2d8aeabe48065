import ClassWeave.Proofs.Typing.Heights
import ClassWeave.Proofs.Typing.Locals

/-!
# Merging joins from above

What takes the place of two frames is above both and tidy, and merging it with either of them again
changes nothing: a frame that has taken in another one has nothing more to learn from it.
-/

namespace ClassWeave

namespace Hierarchy

/-- A lawful hierarchy that answers with the more general of two classes if one is below the
other. -/
structure Joins (hierarchy : Hierarchy) : Prop extends hierarchy.Lawful where
  upper_right {a b c : BinaryName} : hierarchy.ClassBelow a b →
    hierarchy.commonSuperclass a b = .ok c → c = b
  upper_left {a b c : BinaryName} : hierarchy.ClassBelow a b →
    hierarchy.commonSuperclass b a = .ok c → c = b

/-- The fault is one with which the hierarchy answered a question. -/
def Faults (hierarchy : Hierarchy) (fault : Fault) : Prop :=
  ∃ a b, hierarchy.commonSuperclass a b = .error fault

/-- The hierarchy answers all questions. -/
def Answers (hierarchy : Hierarchy) : Prop :=
  ∀ a b, ∃ c, hierarchy.commonSuperclass a b = .ok c

/-- The outcome is this value, unless the hierarchy failed to answer. -/
inductive Settles (hierarchy : Hierarchy) {α : Type} : Except Fault α → α → Prop where
  | ok {value : α} : Settles hierarchy (.ok value) value
  | error {fault : Fault} {value : α} (faults : hierarchy.Faults fault) :
      Settles hierarchy (.error fault) value

variable {hierarchy : Hierarchy}

namespace Settles

variable {α β : Type} {outcome : Except Fault α} {value : α}

theorem eq (settles : hierarchy.Settles outcome value) {other : α} (done : outcome = .ok other) :
    other = value := by
  cases settles with
  | ok => exact (Except.ok.inj done).symm
  | error => cases done

theorem bind (first : hierarchy.Settles outcome value) {next : α → Except Fault β} {result : β}
    (second : hierarchy.Settles (next value) result) :
    hierarchy.Settles (outcome >>= next) result := by
  cases first with
  | ok => exact second
  | error faults => exact .error faults

theorem map (settles : hierarchy.Settles outcome value) (change : α → β) :
    hierarchy.Settles (change <$> outcome) (change value) := by
  cases settles with
  | ok => exact .ok
  | error faults => exact .error faults

/-- A hierarchy that answers all questions leaves no other outcome. -/
theorem of_answers (settles : hierarchy.Settles outcome value) (answers : hierarchy.Answers) :
    outcome = .ok value := by
  cases settles with
  | ok => rfl
  | error faults =>
    obtain ⟨a, b, failed⟩ := faults
    obtain ⟨c, answered⟩ := answers a b
    cases failed.symm.trans answered

theorem mapM {action : α → Except Fault β} {values : List α} {results : List β}
    (each : List.Forall₂ (fun value result => hierarchy.Settles (action value) result)
      values results) : hierarchy.Settles (values.mapM action) results := by
  induction each with
  | nil => exact .ok
  | cons first _ ih =>
    rw [List.mapM_cons]
    exact first.bind (ih.bind .ok)

end Settles

section References

/-- Merging two references fails only if the hierarchy does. -/
theorem mergeReferences_faults {a b : RefType} {fault : Fault}
    (failed : hierarchy.mergeReferences a b = .error fault) : hierarchy.Faults fault := by
  fun_induction mergeReferences hierarchy a b with
  | case1 | case4 => cases failed
  | case2 a b =>
    cases answer : hierarchy.commonSuperclass a b with
    | ok common =>
      rw [answer] at failed
      cases failed
    | error other =>
      rw [answer] at failed
      cases failed
      exact ⟨a, b, answer⟩
  | case3 a b _ source target _ _ _ ih =>
    cases merged : hierarchy.mergeReferences source target with
    | ok element =>
      rw [merged] at failed
      cases failed
    | error other =>
      rw [merged] at failed
      cases failed
      exact ih merged

theorem mergeReferences_objects {a b : BinaryName} (different : a ≠ b) :
    hierarchy.mergeReferences (.object a) (.object b) =
      RefType.object <$> hierarchy.commonSuperclass a b := by
  rw [mergeReferences, if_neg (by simpa using different)]

/-- A class is settled by one that is below it, in either order. -/
theorem Joins.mergeReferences_upper (joins : hierarchy.Joins) {a b : BinaryName}
    (below : hierarchy.ClassBelow a b) :
    hierarchy.Settles (hierarchy.mergeReferences (.object b) (.object a)) (.object b) ∧
      hierarchy.Settles (hierarchy.mergeReferences (.object a) (.object b)) (.object b) := by
  by_cases same : a = b
  · subst same
    rw [mergeReferences_self]
    exact ⟨.ok, .ok⟩
  · rw [mergeReferences_objects same, mergeReferences_objects (Ne.symm same)]
    constructor
    · cases answer : hierarchy.commonSuperclass b a with
      | ok common => exact joins.upper_left below answer ▸ .ok
      | error fault => exact .error ⟨b, a, answer⟩
    · cases answer : hierarchy.commonSuperclass a b with
      | ok common => exact joins.upper_right below answer ▸ .ok
      | error fault => exact .error ⟨a, b, answer⟩

/-- The root is settled by everything. -/
theorem Joins.mergeReferences_root (joins : hierarchy.Joins) (type : RefType) :
    hierarchy.Settles (hierarchy.mergeReferences (.object .object) type) (.object .object) ∧
      hierarchy.Settles (hierarchy.mergeReferences type (.object .object)) (.object .object) := by
  cases type with
  | object name => exact joins.mergeReferences_upper (.root name)
  | array extra component =>
    have left : hierarchy.mergeReferences (.object .object) (.array extra component) =
        .ok (.object .object) := by
      unfold mergeReferences
      simp [RefType.elementType?]
    have right : hierarchy.mergeReferences (.array extra component) (.object .object) =
        .ok (.object .object) := by
      unfold mergeReferences
      simp [RefType.elementType?]
    rw [left, right]
    exact ⟨.ok, .ok⟩

theorem eq_arrayOf {type : RefType} {element : FieldType}
    (isElement : type.elementType? = some element) : type = .arrayOf element := by
  obtain ⟨extra, component, isArray⟩ := RefType.isArray_arrayOf element
  have elements := RefType.arrayOf_elementType element
  rw [isArray] at elements ⊢
  cases type with
  | object => cases isElement
  | array => exact RefType.array_of_elementType (isElement.trans elements.symm)

/-- Arrays are settled by what settles their elements. -/
theorem mergeReferences_elements {source target element : RefType}
    (settles : hierarchy.Settles (hierarchy.mergeReferences source target) element) :
    hierarchy.Settles (hierarchy.mergeReferences (.arrayOf (.ref source)) (.arrayOf (.ref target)))
      (.arrayOf (.ref element)) := by
  by_cases same : source = target
  · subst same
    rw [mergeReferences_self]
    exact settles.eq (mergeReferences_self source) ▸ .ok
  · have sourceElement := RefType.arrayOf_elementType (.ref source)
    have targetElement := RefType.arrayOf_elementType (.ref target)
    have different : RefType.arrayOf (.ref source) ≠ .arrayOf (.ref target) := by
      intro equal
      rw [equal, targetElement] at sourceElement
      cases sourceElement
      exact same rfl
    unfold mergeReferences
    rw [if_neg different]
    split
    · rename_i isObject _
      rw [isObject] at sourceElement
      cases sourceElement
    · split
      · rename_i sourceFound targetFound
        cases sourceFound.symm.trans sourceElement
        cases targetFound.symm.trans targetElement
        exact settles.bind .ok
      · rename_i unmatched
        exact (unmatched _ _ sourceElement targetElement).elim

/-- Two references that have met stay where they met. -/
theorem Joins.mergeReferences_again (joins : hierarchy.Joins) {a b merged : RefType}
    (found : hierarchy.mergeReferences a b = .ok merged) :
    ∀ other, other = a ∨ other = b →
      hierarchy.Settles (hierarchy.mergeReferences merged other) merged ∧
        hierarchy.Settles (hierarchy.mergeReferences other merged) merged := by
  fun_induction mergeReferences hierarchy a b generalizing merged with
  | case1 b =>
    cases found
    rintro other (rfl | rfl) <;> rw [mergeReferences_self] <;> exact ⟨.ok, .ok⟩
  | case2 a b different =>
    obtain ⟨common, answer, rfl⟩ := Outcome.map_ok.mp found
    obtain ⟨below, otherBelow⟩ := joins.common answer
    rintro other (rfl | rfl)
    · exact joins.mergeReferences_upper below
    · exact joins.mergeReferences_upper otherBelow
  | case3 a b notObjects source target sourceFound targetFound different ih =>
    obtain ⟨element, elementFound, same⟩ := Outcome.bind_ok.mp found
    cases Outcome.pure_ok.mp same
    rintro other (rfl | rfl)
    · rw [eq_arrayOf sourceFound]
      exact (ih elementFound source (.inl rfl)).imp mergeReferences_elements
        mergeReferences_elements
    · rw [eq_arrayOf targetFound]
      exact (ih elementFound target (.inr rfl)).imp mergeReferences_elements
        mergeReferences_elements
  | case4 =>
    cases found
    exact fun other _ => joins.mergeReferences_root other

end References

/-- Merging the type with the other one leaves it as it is, whichever comes first. -/
structure Absorbs (hierarchy : Hierarchy) (type other : VType) : Prop where
  left : hierarchy.Settles (hierarchy.mergeTypes type other) (some type)
  right : hierarchy.Settles (hierarchy.mergeTypes other type) (some type)

theorem absorbs_self (type : VType) : hierarchy.Absorbs type type := by
  have same : hierarchy.mergeTypes type type = .ok (some type) := by
    cases type with
    | object type =>
      rw [mergeTypes, mergeReferences_self]
      rfl
    | _ => simp [mergeTypes]
  constructor <;> rw [same] <;> exact .ok

theorem absorbs_null (type : RefType) : hierarchy.Absorbs (.object type) .null := ⟨.ok, .ok⟩

/-- Two types that have met stay where they met. -/
theorem Joins.mergeTypes_again (joins : hierarchy.Joins) {a b merged : VType}
    (found : hierarchy.mergeTypes a b = .ok (some merged)) :
    hierarchy.Absorbs merged a ∧ hierarchy.Absorbs merged b := by
  unfold mergeTypes at found
  split at found
  · rename_i first second
    obtain ⟨type, typeFound, same⟩ := Outcome.map_ok.mp found
    cases same
    have again := joins.mergeReferences_again typeFound
    obtain ⟨left, right⟩ := again first (.inl rfl)
    obtain ⟨left', right'⟩ := again second (.inr rfl)
    exact ⟨⟨left.map _, right.map _⟩, ⟨left'.map _, right'.map _⟩⟩
  · cases found
    exact ⟨absorbs_null _, absorbs_self _⟩
  · cases found
    exact ⟨absorbs_self _, absorbs_null _⟩
  · split at found
    · rename_i same
      cases found
      exact ⟨absorbs_self _, same ▸ absorbs_self _⟩
    · cases found

section Locals

/-- A local that has become unusable stays so. -/
theorem mergeTypes_top (type : VType) :
    (·.getD .top) <$> hierarchy.mergeTypes .top type = .ok .top ∧
      (·.getD .top) <$> hierarchy.mergeTypes type .top = .ok .top := by
  cases type <;> exact ⟨rfl, rfl⟩

theorem Joins.mergeSlot_again (joins : hierarchy.Joins) {a b : VType} {found : Option VType}
    (merged : hierarchy.mergeTypes a b = .ok found) :
    ∀ other, other = a ∨ other = b →
      hierarchy.Settles ((·.getD .top) <$> hierarchy.mergeTypes (found.getD .top) other)
          (found.getD .top) ∧
        hierarchy.Settles ((·.getD .top) <$> hierarchy.mergeTypes other (found.getD .top))
          (found.getD .top) := by
  cases found with
  | none =>
    intro other _
    obtain ⟨left, right⟩ := @mergeTypes_top hierarchy other
    rw [Option.getD_none, left, right]
    exact ⟨.ok, .ok⟩
  | some type =>
    obtain ⟨first, second⟩ := joins.mergeTypes_again merged
    rintro other (rfl | rfl)
    · exact ⟨first.left.map _, first.right.map _⟩
    · exact ⟨second.left.map _, second.right.map _⟩

theorem mergeSlots_cons {seen : List VType} {pair : VType × VType} {rest : List (VType × VType)} :
    hierarchy.mergeSlots false seen (pair :: rest) =
      ((·.getD .top) <$> hierarchy.mergeTypes pair.1 pair.2) >>= fun merged =>
        hierarchy.mergeSlots (merged.width == 2) (merged :: seen) rest := by
  rw [mergeSlots, if_neg Bool.false_ne_true]
  cases hierarchy.mergeTypes pair.1 pair.2 <;> rfl

/-- Slots that are merged with what they were merged from stay as they are, and cover each other as
they did. -/
theorem Joins.mergeSlots_again (joins : hierarchy.Joins) {covered : Bool} {seen : List VType}
    {pairs : List (VType × VType)} {merged : List VType}
    (found : hierarchy.mergeSlots covered seen pairs = .ok merged) :
    ∃ slots, merged = slots.reverse ++ seen ∧ slots.length = pairs.length ∧
      ∀ side : VType × VType → VType, (∀ pair, side pair = pair.1 ∨ side pair = pair.2) →
        ∀ earlier, hierarchy.Settles
            (hierarchy.mergeSlots covered earlier (slots.zip (pairs.map side)))
            (slots.reverse ++ earlier) ∧
          hierarchy.Settles (hierarchy.mergeSlots covered earlier ((pairs.map side).zip slots))
            (slots.reverse ++ earlier) := by
  induction pairs generalizing covered seen with
  | nil =>
    cases found
    exact ⟨[], rfl, rfl, fun _ _ _ => ⟨.ok, .ok⟩⟩
  | cons pair rest ih =>
    cases covered with
    | true =>
      obtain ⟨slots, rfl, length, again⟩ := ih found
      refine ⟨.top :: slots, by simp, by simp [length], fun side oneOf earlier => ?_⟩
      obtain ⟨left, right⟩ := again side oneOf (.top :: earlier)
      rw [List.reverse_cons, List.append_assoc]
      exact ⟨left, right⟩
    | false =>
      rw [mergeSlots_cons] at found
      obtain ⟨type, typeFound, later⟩ := Outcome.bind_ok.mp found
      obtain ⟨option, optionFound, rfl⟩ := Outcome.map_ok.mp typeFound
      obtain ⟨slots, rfl, length, again⟩ := ih later
      refine ⟨option.getD .top :: slots, by simp, by simp [length], fun side oneOf earlier => ?_⟩
      obtain ⟨first, first'⟩ := joins.mergeSlot_again optionFound (side pair) (oneOf pair)
      obtain ⟨left, right⟩ := again side oneOf (option.getD .top :: earlier)
      rw [List.reverse_cons, List.append_assoc, List.map_cons, List.zip_cons_cons,
        List.zip_cons_cons, mergeSlots_cons, mergeSlots_cons]
      exact ⟨first.bind left, first'.bind right⟩

theorem mergeSlots_replicate (covered : Bool) (seen : List VType) (count : Nat) :
    hierarchy.mergeSlots covered seen (List.replicate count (.top, .top)) =
      .ok (List.replicate count .top ++ seen) := by
  induction count generalizing covered seen with
  | zero => rfl
  | succ count ih =>
    have next : hierarchy.mergeSlots covered seen (List.replicate (count + 1) (.top, .top)) =
        hierarchy.mergeSlots false (.top :: seen) (List.replicate count (.top, .top)) := by
      cases covered <;> rfl
    rw [next, ih, List.replicate_succ', List.append_assoc, List.singleton_append]

/-- Slots that are unusable on both sides stay unusable. -/
theorem mergeSlots_append (covered : Bool) (seen : List VType) (pairs : List (VType × VType))
    (count : Nat) :
    hierarchy.mergeSlots covered seen (pairs ++ List.replicate count (.top, .top)) =
      (List.replicate count .top ++ ·) <$> hierarchy.mergeSlots covered seen pairs := by
  induction pairs generalizing covered seen with
  | nil => exact mergeSlots_replicate covered seen count
  | cons pair rest ih =>
    cases covered with
    | true => exact ih false (.top :: seen)
    | false =>
      rw [List.cons_append, mergeSlots_cons, mergeSlots_cons]
      cases hierarchy.mergeTypes pair.1 pair.2 with
      | error => rfl
      | ok => exact ih _ _

theorem zip_rightpad {a b : List VType} {length : Nat} (room : max a.length b.length ≤ length) :
    (a.rightpad length .top).zip (b.rightpad length .top) =
      alignLocals a b ++ List.replicate (length - max a.length b.length) (.top, .top) := by
  have padded (values : List VType) (other : Nat) (room : max values.length other ≤ length) :
      values.rightpad length .top = (values ++ List.replicate (other - values.length) .top) ++
        List.replicate (length - max values.length other) .top := by
    rw [List.rightpad, List.append_assoc, List.replicate_append_replicate]
    congr 2
    omega
  rw [padded a b.length room, padded b a.length (by omega), alignLocals,
    List.zip_append (by simp; omega), Nat.max_comm b.length, List.zip_replicate']

/-- It does not matter how far the lists of locals are filled up. -/
theorem mergeLocals_eq {a b : List VType} {length : Nat} (room : max a.length b.length ≤ length) :
    hierarchy.mergeLocals a b = (·.reverse.rdropWhile (· = .top)) <$>
      hierarchy.mergeSlots false [] ((a.rightpad length .top).zip (b.rightpad length .top)) := by
  rw [zip_rightpad room, mergeSlots_append, mergeLocals]
  cases hierarchy.mergeSlots false [] (alignLocals a b) with
  | error => rfl
  | ok merged =>
    refine congrArg Except.ok ?_
    beta_reduce
    rw [List.reverse_append, List.reverse_replicate, rdropWhile_padded, List.rdropWhile,
      List.reverse_reverse]

/-- Locals that are filled up again after unusable ones have been left out at the end. -/
theorem rightpad_trimmed (slots : List VType) :
    (slots.rdropWhile (· = .top)).rightpad slots.length .top = slots := by
  obtain ⟨count, padded⟩ := trimmed_append slots
  have counted := congrArg List.length padded
  rw [List.length_append, List.length_replicate] at counted
  rw [List.rightpad, ← counted, Nat.add_sub_cancel_left, padded]

/-- Locals that have met stay where they met. -/
theorem Joins.mergeLocals_again (joins : hierarchy.Joins) {a b merged : List VType}
    (found : hierarchy.mergeLocals a b = .ok merged) :
    ∀ other, other = a ∨ other = b →
      hierarchy.Settles (hierarchy.mergeLocals merged other) merged ∧
        hierarchy.Settles (hierarchy.mergeLocals other merged) merged := by
  have shorter := mergeLocals_length found
  rw [mergeLocals_eq (Nat.le_refl _)] at found
  obtain ⟨reversed, reversedFound, rfl⟩ := Outcome.map_ok.mp found
  obtain ⟨slots, rfl, length, again⟩ := joins.mergeSlots_again reversedFound
  have sides : (a.rightpad (max a.length b.length) VerificationType.top).length =
      (b.rightpad (max a.length b.length) VerificationType.top).length := by
    simp only [List.rightpad, List.length_append, List.length_replicate]
    omega
  have lengthEq : max a.length b.length = slots.length := by
    rw [length, List.length_zip, ← sides, Nat.min_self, List.rightpad, List.length_append,
      List.length_replicate]
    omega
  rw [List.append_nil, List.reverse_reverse] at shorter ⊢
  intro other isOther
  obtain ⟨side, oneOf, isSide⟩ : ∃ side : VType × VType → VType,
      (∀ pair, side pair = pair.1 ∨ side pair = pair.2) ∧
        ((a.rightpad (max a.length b.length) .top).zip
          (b.rightpad (max a.length b.length) .top)).map side =
            other.rightpad (max a.length b.length) .top := by
    rcases isOther with rfl | rfl
    · exact ⟨Prod.fst, fun _ => .inl rfl, List.map_fst_zip (Nat.le_of_eq sides)⟩
    · exact ⟨Prod.snd, fun _ => .inr rfl, List.map_snd_zip (Nat.le_of_eq sides.symm)⟩
  have room : other.length ≤ max a.length b.length := by
    rcases isOther with rfl | rfl <;> omega
  obtain ⟨left, right⟩ := again side oneOf []
  rw [isSide, List.append_nil] at left right
  have trimmed (outcome : Except Fault (List VType))
      (settles : hierarchy.Settles outcome slots.reverse) :
      hierarchy.Settles ((·.reverse.rdropWhile (· = VerificationType.top)) <$> outcome)
        (slots.rdropWhile (· = .top)) := by
    have mapped := settles.map (·.reverse.rdropWhile (· = VerificationType.top))
    rwa [List.reverse_reverse] at mapped
  constructor
  · rw [mergeLocals_eq (Nat.max_le.mpr ⟨shorter, room⟩), lengthEq, rightpad_trimmed]
    exact trimmed _ (lengthEq ▸ left)
  · rw [mergeLocals_eq (Nat.max_le.mpr ⟨room, shorter⟩), lengthEq, rightpad_trimmed]
    exact trimmed _ (lengthEq ▸ right)

end Locals

section Stacks

/-- Values that are merged one by one make a stack. -/
theorem mergeStacks_settles {item : Nat} {a b merged : List VType} (heights : a.length = b.length)
    (each : List.Forall₂ (fun pair type => hierarchy.Settles
      (hierarchy.mergeTypes pair.1 pair.2) (some type)) (a.zip b) merged) :
    hierarchy.Settles (hierarchy.mergeStacks item a b) merged := by
  have value (pair : VType × VType) (type : VType)
      (settles : hierarchy.Settles (hierarchy.mergeTypes pair.1 pair.2) (some type)) :
      hierarchy.Settles (hierarchy.mergeStackValue item pair.1 pair.2) type := settles.bind .ok
  have reversed := Settles.mapM (List.forall₂_reverse_iff.mpr (each.imp value))
  have zipped : (a.zip b).reverse = a.reverse.zip b.reverse := List.reverse_zipWith heights
  rw [mergeStacks, if_pos heights, ← zipped]
  have settled := reversed.map List.reverse
  rwa [List.reverse_reverse] at settled

/-- Stacks that have met stay where they met. -/
theorem Joins.mergeStacks_again (joins : hierarchy.Joins) {item : Nat} {a b merged : List VType}
    (found : hierarchy.mergeStacks item a b = .ok merged) (again : Nat) :
    ∀ other, other = a ∨ other = b →
      hierarchy.Settles (hierarchy.mergeStacks again merged other) merged ∧
        hierarchy.Settles (hierarchy.mergeStacks again other merged) merged := by
  have absorbed := mergeStacks_each joins.mergeTypes_again found
  have settles {values : List VType}
      (each : List.Forall₂ (fun value type => hierarchy.Absorbs type value) values merged) :
      hierarchy.Settles (hierarchy.mergeStacks again merged values) merged ∧
        hierarchy.Settles (hierarchy.mergeStacks again values merged) merged := by
    refine ⟨mergeStacks_settles each.length_eq.symm ?_, mergeStacks_settles each.length_eq ?_⟩
    · clear absorbed found
      induction each with
      | nil => exact .nil
      | cons first _ ih => exact .cons first.left ih
    · clear absorbed found
      induction each with
      | nil => exact .nil
      | cons first _ ih => exact .cons first.right ih
  rintro other (rfl | rfl)
  · exact settles absorbed.1
  · exact settles absorbed.2

end Stacks

/-- Merged locals end in a usable one. -/
theorem mergeLocals_getLast? {a b merged : List VType}
    (found : hierarchy.mergeLocals a b = .ok merged) : merged.getLast? ≠ some .top := by
  rw [mergeLocals_eq (Nat.le_refl _)] at found
  obtain ⟨reversed, -, rfl⟩ := Outcome.map_ok.mp found
  intro last
  obtain ⟨nonempty, isTop⟩ := List.mem_getLast?_eq_getLast last
  have usable := List.rdropWhile_last_not (· = VerificationType.top) reversed.reverse nonempty
  exact usable (decide_eq_true isTop.symm)

/-- A frame in the place of two others: it is as high as both and above both, no local in it is cut
in half, and it does not end in an unusable local. -/
structure Joined (hierarchy : Hierarchy) (existing incoming merged : VFrame) : Prop where
  heights : existing.stack.length = merged.stack.length ∧
    incoming.stack.length = merged.stack.length
  above : hierarchy.FrameBelow existing merged ∧ hierarchy.FrameBelow incoming merged
  spaced : Spaced merged.locals
  trimmed : merged.locals.getLast? ≠ some .top

theorem Joins.mergeFrames_joined (joins : hierarchy.Joins) {item : Nat}
    {existing incoming merged : VFrame}
    (found : hierarchy.mergeFrames item existing incoming = .ok merged) :
    hierarchy.Joined existing incoming merged := by
  have above := joins.mergeFrames_above found
  obtain ⟨-, localsFound⟩ := mergeFrames_parts found
  exact ⟨⟨above.1.stack.length_eq, above.2.stack.length_eq⟩, above,
    (mergeLocals_spaced localsFound).2, mergeLocals_getLast? localsFound⟩

/-- Frames that have met stay where they met. -/
theorem Joins.mergeFrames_again (joins : hierarchy.Joins) {item : Nat}
    {existing incoming merged : VFrame}
    (found : hierarchy.mergeFrames item existing incoming = .ok merged) (again : Nat) :
    ∀ other, other = existing ∨ other = incoming →
      hierarchy.Settles (hierarchy.mergeFrames again merged other) merged ∧
        hierarchy.Settles (hierarchy.mergeFrames again other merged) merged := by
  obtain ⟨stackFound, localsFound⟩ := mergeFrames_parts found
  intro other isOther
  obtain ⟨onStack, onStack'⟩ := joins.mergeStacks_again stackFound again other.stack
    (isOther.imp (congrArg _) (congrArg _))
  obtain ⟨inLocals, inLocals'⟩ := joins.mergeLocals_again localsFound other.locals
    (isOther.imp (congrArg _) (congrArg _))
  exact ⟨onStack.bind (inLocals.bind .ok), onStack'.bind (inLocals'.bind .ok)⟩

/-- Merging is a join from above. References are ordered by assignability, and two of them meet in
one that is above both, however deeply their arrays are nested, unless the hierarchy fails to
answer. Two frames meet in a tidy frame above both, and merging that frame with either of them
again, in either order, leads back to it: with a hierarchy that answers it always does, and with
others nothing but a question that has no answer can prevent it. -/
theorem Joins.joins_from_above (joins : hierarchy.Joins) :
    (∀ type, hierarchy.ReferenceBelow type type) ∧
      (∀ a b c, hierarchy.ReferenceBelow a b → hierarchy.ReferenceBelow b c →
        hierarchy.ReferenceBelow a c) ∧
      (∀ a b, (∃ merged, hierarchy.mergeReferences a b = .ok merged ∧
          hierarchy.ReferenceBelow a merged ∧ hierarchy.ReferenceBelow b merged) ∨
        ∃ fault, hierarchy.mergeReferences a b = .error fault ∧ hierarchy.Faults fault) ∧
      ∀ item existing incoming merged, hierarchy.mergeFrames item existing incoming = .ok merged →
        hierarchy.Joined existing incoming merged ∧
          ∀ again, ∀ other ∈ [existing, incoming],
            (hierarchy.Settles (hierarchy.mergeFrames again merged other) merged ∧
              hierarchy.Settles (hierarchy.mergeFrames again other merged) merged) ∧
            (hierarchy.Answers → hierarchy.mergeFrames again merged other = .ok merged ∧
              hierarchy.mergeFrames again other merged = .ok merged) := by
  refine ⟨.refl, fun _ _ _ => joins.referenceBelow_trans, fun a b => ?_,
    fun item existing incoming merged found =>
      ⟨joins.mergeFrames_joined found, fun again other member => ?_⟩⟩
  · cases outcome : hierarchy.mergeReferences a b with
    | ok merged => exact .inl ⟨merged, rfl, joins.mergeReferences_above outcome⟩
    | error fault => exact .inr ⟨fault, rfl, mergeReferences_faults outcome⟩
  · obtain ⟨left, right⟩ := joins.mergeFrames_again found again other (by simpa using member)
    exact ⟨⟨left, right⟩, fun answers => ⟨left.of_answers answers, right.of_answers answers⟩⟩

theorem flat_joins : flat.Joins where
  toLawful := flat_lawful
  upper_right below answered := by
    cases answered
    simp only [flat_classBelow] at below
    grind
  upper_left below answered := by
    cases answered
    simp only [flat_classBelow] at below
    grind

/-- Arrays of arrays of two classes, and a two-slot local that meets a number. -/
def stringsFrame : VFrame :=
  ⟨[.long, .top, .object (.array 1 (.object .string)), .double, .top],
    [.null, .object (.array 1 (.object .string))]⟩

def threadsFrame : VFrame :=
  ⟨[.integer, .null, .object (.array 1 (.object .thread)), .double],
    [VType.ofClass .thread, .object (.array 1 (.object .thread))]⟩

def objectsFrame : VFrame :=
  ⟨[.top, .top, .object (.array 1 (.object .object)), .double],
    [VType.ofClass .thread, .object (.array 1 (.object .object))]⟩

theorem flat_answers : flat.Answers := fun _ _ => ⟨_, rfl⟩

theorem objects_merged :
    flat.mergeReferences (.array 1 (.object .string)) (.array 1 (.object .thread)) =
      .ok (.array 1 (.object .object)) := by
  have classes : flat.Settles
      (flat.mergeReferences (.object .string) (.object .thread)) (.object .object) := by
    rw [mergeReferences_objects (by decide)]
    exact .ok
  exact (mergeReferences_elements (mergeReferences_elements classes)).of_answers flat_answers

theorem objectsFrame_merged : flat.mergeFrames 7 stringsFrame threadsFrame = .ok objectsFrame := by
  have objects : flat.mergeTypes (.object (.array 1 (.object .string)))
      (.object (.array 1 (.object .thread))) =
        .ok (some (.object (.array 1 (.object .object)))) := by
    rw [mergeTypes, objects_merged]
    rfl
  have stack : flat.mergeStacks 7 stringsFrame.stack threadsFrame.stack =
      .ok objectsFrame.stack := by
    simp [mergeStacks, mergeStackValue, objects, stringsFrame, threadsFrame]
    rfl
  have locals : flat.mergeLocals stringsFrame.locals threadsFrame.locals =
      .ok objectsFrame.locals := by
    simp [mergeLocals, alignLocals, mergeSlots, objects, stringsFrame, threadsFrame]
    rfl
  rw [mergeFrames, stack, locals]
  rfl

theorem objectsFrame_joins : flat.Joins ∧
    flat.mergeFrames 7 stringsFrame threadsFrame = .ok objectsFrame ∧
    flat.Joined stringsFrame threadsFrame objectsFrame ∧
    flat.mergeFrames 8 objectsFrame stringsFrame = .ok objectsFrame ∧
    flat.mergeFrames 8 threadsFrame objectsFrame = .ok objectsFrame := by
  obtain ⟨-, -, -, frames⟩ := flat_joins.joins_from_above
  obtain ⟨joined, again⟩ := frames 7 stringsFrame threadsFrame objectsFrame objectsFrame_merged
  obtain ⟨-, first⟩ := again 8 stringsFrame (by simp)
  obtain ⟨-, second⟩ := again 8 threadsFrame (by simp)
  exact ⟨flat_joins, objectsFrame_merged, joined, (first flat_answers).1,
    (second flat_answers).2⟩

end Hierarchy

end ClassWeave
