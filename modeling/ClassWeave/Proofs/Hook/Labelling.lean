import ClassWeave.Hook.Weaving
import ClassWeave.Proofs.Code.LabelFaults
import ClassWeave.Proofs.Code.RoundTrip
import ClassWeave.Proofs.Hook.Fitting
import ClassWeave.Proofs.Hook.Triggering

/-!
# Rewriting keeps labels well formed

A hook brings its labels with it: it places those that it takes, once each, and jumps to no others.
What is put before an initializer has no labels at all. So from the bytecode of a method on, however
often its body is rewritten, its labels fit together, and no fault blames them.
-/

namespace ClassWeave

/-- The items place the labels from one on up to another, each of them once, and jump to no others.
-/
structure Item.Brings (items : List Item) (first next : Label) : Prop where
  once : (marks items).Nodup
  placed : ∀ label, .label label ∈ items ↔ first.index ≤ label.index ∧ label.index < next.index
  jumps : ∀ jump, .branch jump ∈ items → ∀ label ∈ jump.targets, .label label ∈ items
  onward : first.index ≤ next.index

/-- Items without labels bring none. -/
theorem Item.brings_none {items : List Item} (free : ∀ item ∈ items, item.labels = [])
    (label : Label) : Brings items label label := by
  have unplaced (mark : Label) : .label mark ∉ items := fun member => by cases free _ member
  refine ⟨?_, fun mark => ?_, fun jump member target isTarget => ?_, Nat.le_refl _⟩
  · have empty : marks items = [] :=
      List.eq_nil_iff_forall_not_mem.mpr fun mark member => unplaced mark (mem_marks.mp member)
    rw [empty]
    exact List.nodup_nil
  · constructor
    · exact fun member => (unplaced mark member).elim
    · omega
  · have none : jump.targets = [] := free _ member
    rw [none] at isTarget
    cases isTarget

namespace Body

variable {body : Body} {position : Nat} {hook : List Item} {next : Label}

theorem splice_items_perm (body : Body) (position : Nat) (hook : List Item) (next : Label) :
    (body.splice position hook next).items.Perm (body.items ++ hook) := by
  have swapped : (hook ++ body.items.drop position).Perm (body.items.drop position ++ hook) :=
    List.perm_append_comm
  have spliced := swapped.append_left (body.items.take position)
  rwa [← List.append_assoc, ← List.append_assoc, List.take_append_drop] at spliced

/-- Items that bring labels from the next one on leave the labels of a body well formed. -/
theorem WellLabelled.splice (well : body.WellLabelled) (within : position ≤ body.items.length)
    (brings : Item.Brings hook body.nextLabel next) :
    (body.splice position hook next).WellLabelled := by
  have perm := splice_items_perm body position hook next
  have mem_items {item : Item} :
      item ∈ (body.splice position hook next).items ↔ item ∈ body.items ∨ item ∈ hook :=
    perm.mem_iff.trans List.mem_append
  refine ⟨?_, fun label => ?_, fun label refers => ?_, fun handler member => ?_⟩
  · have marked := perm.filterMap Item.label?
    rw [List.filterMap_append] at marked
    refine marked.nodup_iff.mpr (List.nodup_append'.mpr ⟨well.once, brings.once, ?_⟩)
    intro label inBody inHook
    have below := (well.placed label).mp (Item.mem_marks.mp inBody)
    exact Nat.not_le_of_lt below ((brings.placed label).mp (Item.mem_marks.mp inHook)).1
  · rw [mem_items, well.placed, brings.placed]
    have onward := brings.onward
    change _ ↔ label.index < next.index
    omega
  · rw [mem_items]
    rcases refers with ⟨jump, listed, isTarget⟩ | tables
    · rcases mem_items.mp listed with earlier | brought
      · exact .inl (well.refers label (.inl ⟨jump, earlier, isTarget⟩))
      · exact .inr (brings.jumps jump brought label isTarget)
    · exact .inl (well.refers label (.inr tables))
  · obtain ⟨start, stop, startPlaced, stopPlaced, before⟩ := well.forwards handler member
    exact ⟨_, _, (splice_labelAt_shift within).mpr startPlaced,
      (splice_labelAt_shift within).mpr stopPlaced, shift_lt_shift.mpr before⟩

end Body

namespace HookSite

/-- An answer is used without labels, or with two of them. -/
theorem marks_useAnswer (target : Target) (slot : UInt16) (fresh : Label) :
    Item.marks (useAnswer target slot fresh) = [] ∧ afterAnswer target.shape fresh = fresh ∨
      Item.marks (useAnswer target slot fresh) = [fresh, fresh.next] ∧
        afterAnswer target.shape fresh = fresh.next.next := by
  unfold useAnswer afterAnswer
  cases target.shape with
  | entry | callBranch | callResult | cache => exact .inl ⟨rfl, rfl⟩
  | entrySelect | aggregate => exact .inr ⟨rfl, rfl⟩

theorem marks_items (call : HookCall) (target : Target) (slot : UInt16) (fresh : Label) :
    Item.marks (items call target slot fresh) =
      Item.marks (useAnswer target slot fresh.next) ++ [fresh] := by
  have loads : Item.marks [step (.load .reference slot)] = [] := rfl
  have guard : Item.marks (call.guard fresh) = [] := rfl
  have calling : Item.marks call.items = [] := Item.marks_map (fun _ => rfl) _
  have landing : Item.marks (HookCall.landing fresh) = [fresh] := rfl
  simp only [items, Item.marks_append, loads, guard, calling, landing, List.nil_append]
  -- the arguments are loaded by instructions
  rw [Item.marks_map fun _ => rfl]
  simp only [List.nil_append]

/-- A hook places the labels that it takes, and its jumps stay inside. -/
theorem items_brings (call : HookCall) (target : Target) (slot : UInt16) (fresh : Label) :
    Item.Brings (items call target slot fresh) fresh (nextLabel target.shape fresh) := by
  have marks := marks_items call target slot fresh
  have jumps (jump : Branch Label) (member : .branch jump ∈ items call target slot fresh) :
      ∀ label ∈ jump.targets, .label label ∈ items call target slot fresh := by
    have early : .branch jump ∈ test call slot fresh ++ consult call target slot fresh := by
      rw [items_eq, List.mem_append] at member
      exact member.resolve_right (by simp)
    rcases branches_closed early with ⟨kind, rfl⟩ | ⟨label, targets, placed⟩
    · simp [Branch.targets]
    · rw [targets]
      simpa using placed
  obtain ⟨first⟩ := fresh
  unfold nextLabel
  rcases marks_useAnswer target slot (Label.next ⟨first⟩) with ⟨none, after⟩ | ⟨both, after⟩
  · rw [none, List.nil_append] at marks
    rw [after]
    refine ⟨?_, fun label => ?_, jumps, Nat.le_succ first⟩
    · rw [marks]
      exact List.nodup_singleton _
    · obtain ⟨index⟩ := label
      rw [← Item.mem_marks, marks]
      simp only [List.mem_singleton, Label.mk.injEq, Label.next]
      omega
  · rw [both] at marks
    rw [after]
    refine ⟨?_, fun label => ?_, jumps, Nat.le_add_right first 3⟩
    · rw [marks]
      simp only [List.cons_append, List.nil_append, List.nodup_cons, List.mem_cons,
        List.not_mem_nil, or_false, not_false_eq_true, List.nodup_nil, and_true, Label.mk.injEq,
        Label.next]
      omega
    · obtain ⟨index⟩ := label
      rw [← Item.mem_marks, marks]
      simp only [List.cons_append, List.nil_append, List.mem_cons, List.not_mem_nil, or_false,
        Label.mk.injEq, Label.next]
      omega

end HookSite

namespace Body

/-- A hook is put into the body, or items without labels are put before it. -/
inductive Rewrite (body : Body) : Body → Prop where
  | hook {plan : HookPlan} {hooked : Body} (found : plan.hooked? body = some hooked) :
      Rewrite body hooked
  | setUp {setup : List Item} (free : ∀ item ∈ setup, item.labels = []) :
      Rewrite body (Initializer.prepend setup body)

variable {origin body next : Body}

theorem WellLabelled.rewrite (well : body.WellLabelled) (rewrite : body.Rewrite next) :
    next.WellLabelled := by
  cases rewrite with
  | hook found =>
    obtain ⟨position, slot, within, rfl⟩ := HookPlan.hooked_splice found
    exact well.splice within (HookSite.items_brings _ _ _ _)
  | setUp free =>
    have spliced := well.splice (Nat.zero_le _) (Item.brings_none free body.nextLabel)
    simpa [Body.splice, Initializer.prepend] using spliced

theorem WellLabelled.rewrites (well : origin.WellLabelled)
    (path : Relation.ReflTransGen Rewrite origin body) : body.WellLabelled := by
  induction path with
  | refl => exact well
  | tail _ rewrite ih => exact ih.rewrite rewrite

/-- Bodies made from bytecode have well-formed labels, rewriting keeps them well formed, and neither
typing nor assembly of what comes out blames a label, unless the hierarchy of classes has. -/
theorem rewritten_blames_no_label {code : CodeAttribute} {constants : ConstantTable} {origin : Body}
    (decoded : Body.ofCode code constants = .ok origin) :
    origin.WellLabelled ∧
    (∀ body next : Body, body.WellLabelled → body.Rewrite next → next.WellLabelled) ∧
    ∀ body, Relation.ReflTransGen Rewrite origin body →
      body.WellLabelled ∧
      (∀ method hierarchy fault, body.inferFrames method hierarchy = .error fault →
        fault.BlamesLabel → hierarchy.Reports fault) ∧
      ∀ context before fault, (body.assemble context before).1 = .error fault →
        fault.BlamesLabel → context.hierarchy.Reports fault := by
  have well := Body.ofCode_wellLabelled decoded
  refine ⟨well, fun _ _ wellBefore => wellBefore.rewrite, fun body path => ?_⟩
  have kept := well.rewrites path
  exact ⟨kept, fun method hierarchy fault failed => kept.inferFrames_spares method hierarchy failed,
    fun context before fault failed => kept.assemble_spares context failed⟩

end Body

/-- What the setup of a hook puts before an initializer has no labels. -/
theorem Initializer.setup_free (thisClass : BinaryName) (interface : InterfaceMethod)
    (fields : HookFields) (source : LoaderSource) :
    ∀ item ∈ setup thisClass interface fields source, item.labels = [] := by
  intro item member
  obtain ⟨instruction, -, rfl⟩ := List.mem_map.mp member
  rfl

/-- Weaving changes bodies in these ways only. -/
theorem Weaving.editedBody_rewrite {weaving : Weaving} {edit : MethodEdit} {body next : Body}
    {name : UnqualifiedName} (free : ∀ item ∈ weaving.setup, item.labels = [])
    (done : weaving.editedBody edit body = .ok (some (name, next))) : body.Rewrite next := by
  cases edit with
  | keep => cases done
  | setUp =>
    cases done
    exact .setUp free
  | hook target =>
    obtain ⟨-, -, done⟩ := Outcome.bind_ok.mp done
    obtain ⟨hooked, found, same⟩ := Option.map_eq_some_iff.mp (Outcome.pure_ok.mp done)
    cases same
    exact .hook found

/-- The hook of `HookPlan.storingPlan`, but at the start of a method, on its first local. -/
def enteringPlan : HookPlan :=
  { HookPlan.storingPlan with target := { HookPlan.storingPlan.target with shape := .entry 0 } }

def looseEntered : Body :=
  looseBody.splice 0 (HookSite.items enteringPlan.call enteringPlan.target 0 ⟨4⟩) ⟨5⟩

theorem loose_blames_no_label : Body.ofCode looseCode looseConstants = .ok looseBody ∧
    looseBody.WellLabelled ∧ enteringPlan.hooked? looseBody = some looseEntered ∧
    looseEntered.WellLabelled ∧ ∀ method hierarchy fault,
      looseEntered.inferFrames method hierarchy = .error fault → fault.BlamesLabel →
        hierarchy.Reports fault := by
  have found : enteringPlan.hooked? looseBody = some looseEntered := rfl
  obtain ⟨well, -, rewritten⟩ := Body.rewritten_blames_no_label loose_decoded
  obtain ⟨kept, typing, -⟩ := rewritten looseEntered (.single (.hook found))
  exact ⟨loose_decoded, well, found, kept, typing⟩

end ClassWeave
