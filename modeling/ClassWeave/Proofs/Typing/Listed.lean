import Mathlib.Data.List.GetD
import ClassWeave.Proofs.Typing.Locals
import ClassWeave.Proofs.Typing.Moving
import ClassWeave.Typing.Stored

/-!
# Frames as stack maps list them

A listed frame has one local for each value, whether it takes one slot or two, and ends with the
last usable one. Giving every local its slots leads back to the frame, but for the unusable locals
at its end.
-/

namespace ClassWeave

/-- A frame with its locals listed once each, and the stack from the bottom up. -/
structure ListedFrame where
  locals : List VType
  stack : List VType

/-- The slots of a local. -/
def VType.slots (type : VType) : List VType := if type.width = 2 then [type, .top] else [type]

namespace ListedFrame

/-- Gives every local its slots. -/
def spread (listed : ListedFrame) : VFrame :=
  ⟨listed.locals.flatMap VType.slots, listed.stack.reverse⟩

/-- The frame on entry to a method: one local for the receiver and for each parameter. -/
def initial (method : MethodContext) : ListedFrame :=
  ⟨VFrame.receiverLocals method ++ method.descriptor.parameters.map VType.ofFieldType, []⟩

end ListedFrame

namespace VFrame

/-- The listed form of a frame. `offsetOf` leads from the position of an item to its offset, by which
new objects are known in stack maps. -/
def listed (offsetOf : Nat → Nat) (frame : VFrame) : ListedFrame :=
  ⟨(condensed frame.locals).map (VType.moved offsetOf),
    (frame.stack.map (VType.moved offsetOf)).reverse⟩

/-- The same values on the stack and in the locals, where unusable locals at the end make no
difference. -/
structure Same (a b : VFrame) : Prop where
  stack : a.stack = b.stack
  locals : ∀ slot, a.locals.getD slot .top = b.locals.getD slot .top

variable {type next : VType} {seen rest locals : List VType} {move : Nat → Nat}

theorem condenseOnto_narrow (narrow : type.width ≠ 2) :
    condenseOnto seen (type :: rest) = condenseOnto (type :: seen) rest := by
  cases rest with
  | nil => rfl
  | cons next rest => rw [condenseOnto, if_neg narrow]

theorem condenseOnto_slots (types : List VType) :
    condenseOnto seen (types.flatMap VType.slots) = types.reverse ++ seen := by
  induction types generalizing seen with
  | nil => rfl
  | cons type types ih =>
    rw [List.flatMap_cons, VType.slots, List.reverse_cons, List.append_assoc]
    split
    · rename_i wide
      rw [List.cons_append, List.cons_append, List.nil_append, condenseOnto, if_pos wide, ih]
      rfl
    · rename_i narrow
      rw [List.singleton_append, condenseOnto_narrow narrow, ih]
      rfl

/-- Locals with their slots are listed as before, if the last one is usable. -/
theorem condensed_slots {types : List VType} (usable : ∀ type ∈ types, type ≠ .top) :
    condensed (types.flatMap VType.slots) = types := by
  rw [condensed, condenseOnto_slots, List.append_nil]
  exact List.rdropWhile_eq_self_iff.mpr fun nonempty => by
    simpa using usable _ (List.getLast_mem nonempty)

theorem parameterLocals_eq (type : FieldType) :
    parameterLocals type = (VType.ofFieldType type).slots := by
  simp only [parameterLocals, VType.slots, beq_iff_eq]

theorem receiverLocals_eq (method : MethodContext) :
    receiverLocals method = (receiverLocals method).flatMap VType.slots := by
  obtain ⟨same, -⟩ | ⟨type, same, width, -⟩ := receiver_cases method
  · rw [same]
    rfl
  · rw [same, List.flatMap_singleton, VType.slots, if_neg (by omega)]

theorem initial_spread (method : MethodContext) :
    (ListedFrame.initial method).spread = initial method := by
  have parameters : (method.descriptor.parameters.map VType.ofFieldType).flatMap VType.slots =
      method.descriptor.parameters.flatMap parameterLocals := by
    rw [List.flatMap_map]
    exact congrArg (method.descriptor.parameters.flatMap ·) (funext fun type =>
      (parameterLocals_eq type).symm)
  rw [ListedFrame.spread, ListedFrame.initial, List.flatMap_append, ← receiverLocals_eq, parameters]
  rfl

/-- All that is known on entry is usable, and the same wherever items are. -/
theorem initial_fixed (method : MethodContext) (move : Nat → Nat) :
    ∀ type ∈ (ListedFrame.initial method).locals, type ≠ .top ∧ type.moved move = type := by
  intro type member
  rcases List.mem_append.mp member with isReceiver | isParameter
  · unfold receiverLocals at isReceiver
    split at isReceiver
    · cases isReceiver
    · split at isReceiver <;> cases List.mem_singleton.mp isReceiver <;> exact ⟨nofun, rfl⟩
  · obtain ⟨parameter, -, rfl⟩ := List.mem_map.mp isParameter
    refine ⟨?_, VType.moved_ofFieldType parameter⟩
    rcases parameter with (_ | _ | _ | _ | _ | _ | _ | _) | _ <;> exact nofun

/-- What is known on entry is listed as the receiver and the parameters. -/
theorem initial_listed (method : MethodContext) :
    (initial method).listed move = ListedFrame.initial method := by
  have fixed := initial_fixed method move
  have locals : condensed (initial method).locals = (ListedFrame.initial method).locals := by
    rw [← initial_spread]
    exact condensed_slots fun type member => (fixed type member).1
  rw [listed, locals, List.map_congr_left fun type member => (fixed type member).2, List.map_id']
  rfl

theorem getD_condenseOnto (spaced : Spaced locals) (seen : List VType) (slot : Nat) :
    ((condenseOnto seen locals).reverse.flatMap VType.slots).getD slot .top =
      (seen.reverse.flatMap VType.slots ++ locals).getD slot .top := by
  fun_induction condenseOnto seen locals with
  | case1 seen => rw [List.append_nil]
  | case2 seen type =>
    rw [List.reverse_cons, List.flatMap_append, List.flatMap_singleton, VType.slots]
    split
    · exact List.append_assoc _ [type] [.top] ▸ Hierarchy.getD_padded _ 1 slot
    · rfl
  | case3 seen type next rest wide ih =>
    obtain ⟨second, spaced⟩ := spaced_cons.mp spaced
    rw [ih (spaced_cons.mp spaced).2, List.reverse_cons, List.flatMap_append,
      List.flatMap_singleton, VType.slots, if_pos wide, show next = .top from second wide,
      List.append_assoc]
    rfl
  | case4 seen type next rest narrow ih =>
    rw [ih (spaced_cons.mp spaced).2, List.reverse_cons, List.flatMap_append,
      List.flatMap_singleton, VType.slots, if_neg narrow, List.append_assoc]
    rfl

/-- Every slot gets back what was in it. -/
theorem getD_condensed (spaced : Spaced locals) (slot : Nat) :
    ((condensed locals).flatMap VType.slots).getD slot .top = locals.getD slot .top := by
  have unused (count : Nat) : (List.replicate count VerificationType.top).flatMap VType.slots =
      List.replicate count VerificationType.top := by
    induction count with
    | zero => rfl
    | succ count ih => rw [List.replicate_succ, List.flatMap_cons, ih]; rfl
  obtain ⟨count, same⟩ := Hierarchy.trimmed_append (condenseOnto [] locals).reverse
  have whole := getD_condenseOnto spaced [] slot
  rw [← same, List.flatMap_append, unused, Hierarchy.getD_padded, List.rdropWhile,
    List.reverse_reverse] at whole
  exact whole

/-- A listed frame leads back to the frame that it was made of. -/
theorem listed_spread {frame : VFrame} (spaced : Spaced frame.locals) :
    (frame.listed move).spread.Same (frame.moved move) where
  stack := List.reverse_reverse _
  locals slot := by
    have slots (type : VType) : (type.moved move).slots = type.slots.map (VType.moved move) := by
      simp only [VType.slots, VType.moved_width]
      split <;> rfl
    have spread : (frame.listed move).spread.locals =
        ((condensed frame.locals).flatMap VType.slots).map (VType.moved move) := by
      rw [List.map_flatMap, ListedFrame.spread, listed, List.flatMap_map]
      simp only [slots]
    have moved (types : List VType) : (types.map (VType.moved move)).getD slot .top =
        (types.getD slot .top).moved move := List.getD_map types .top (VType.moved move)
    rw [spread, VFrame.moved, moved, moved, getD_condensed spaced]

end VFrame

end ClassWeave
