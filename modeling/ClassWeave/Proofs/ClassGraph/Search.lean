import Mathlib.Data.Finset.Card
import Mathlib.Logic.Relation
import ClassWeave.ClassGraph.Basic

/-!
# Searching class graphs

The search for a supertype finds it exactly if a path of supertypes leads there. Every class is
pending at most once, so the search has steps enough.
-/

namespace ClassWeave

namespace ClassGraph

variable {graph : ClassGraph} {target : ClassHeader} {name : BinaryName}
  {seen : Std.HashSet BinaryName} {pending sups : List BinaryName}

/-- A class of the graph and one of its direct supertypes. -/
def Edge (graph : ClassGraph) (toInterface : Bool) (sub sup : BinaryName) : Prop :=
  ∃ header, graph.find? sub = some header ∧ sup ∈ supertypes toInterface header

def Knows (graph : ClassGraph) (name : BinaryName) : Prop :=
  ∃ header, graph.find? name = some header

/-- The supertypes of every class of the graph are in it as well. -/
def Closed (graph : ClassGraph) : Prop :=
  ∀ ⦃name header⦄, graph.find? name = some header →
    ∀ sup ∈ supertypes true header, graph.Knows sup

theorem mem_supertypes {header : ClassHeader} {toInterface : Bool} :
    name ∈ supertypes toInterface header ↔
      header.superclass = some name ∨ toInterface = true ∧ name ∈ header.interfaces := by
  cases toInterface <;> simp [supertypes]

theorem Edge.toInterface {toInterface : Bool} {sub sup : BinaryName}
    (edge : graph.Edge toInterface sub sup) : graph.Edge true sub sup :=
  edge.imp fun _ found => ⟨found.1, mem_supertypes.mpr
    ((mem_supertypes.mp found.2).imp_right fun listed => ⟨rfl, listed.2⟩)⟩

theorem Edge.ofSuperclass {toInterface : Bool} {sub sup : BinaryName}
    (edge : graph.Edge false sub sup) : graph.Edge toInterface sub sup :=
  edge.imp fun _ found => ⟨found.1, mem_supertypes.mpr
    ((mem_supertypes.mp found.2).imp_right fun listed => absurd listed.1 Bool.false_ne_true)⟩

/-- The names of the classes in the graph. -/
def names (graph : ClassGraph) : Finset BinaryName := graph.classes.keys.toFinset

theorem mem_names : name ∈ graph.names ↔ graph.Knows name := by
  rw [names, List.mem_toFinset, Std.HashMap.mem_keys, Std.HashMap.mem_iff_isSome_getElem?,
    Option.isSome_iff_exists]
  rfl

theorem card_names_le : graph.names.card ≤ graph.classes.size :=
  (List.toFinset_card_le _).trans_eq Std.HashMap.length_keys

theorem Closed.edge (closed : graph.Closed) {toInterface : Bool} {sub sup : BinaryName}
    (edge : graph.Edge toInterface sub sup) : sup ∈ graph.names := by
  obtain ⟨header, found, above⟩ := edge.toInterface
  exact mem_names.mpr (closed found sup above)

/-- The classes of the graph that the search has not come upon. -/
def unseen (graph : ClassGraph) (seen : Std.HashSet BinaryName) : Finset BinaryName :=
  graph.names.filter (· ∉ seen)

theorem card_unseen_insert (known : name ∈ graph.names) (new : name ∉ seen) :
    (graph.unseen (seen.insert name)).card < (graph.unseen seen).card := by
  apply Finset.card_lt_card
  refine ⟨fun other member => ?_, fun covers => ?_⟩
  · simp only [unseen, Finset.mem_filter, Std.HashSet.mem_insert, not_or] at member ⊢
    exact ⟨member.1, member.2.2⟩
  · have member : name ∈ graph.unseen (seen.insert name) :=
      covers (Finset.mem_filter.mpr ⟨known, new⟩)
    simp [unseen] at member

theorem mem_visit_seen :
    name ∈ (visit seen pending sups).1 ↔ name ∈ seen ∨ name ∈ sups := by
  induction sups generalizing seen pending with
  | nil => simp [visit]
  | cons first rest ih =>
    simp only [visit]
    split
    · rename_i known
      rw [ih, List.mem_cons]
      have : first ∈ seen := known
      grind
    · rw [ih, Std.HashSet.mem_insert, List.mem_cons]
      grind

theorem mem_visit_pending :
    name ∈ (visit seen pending sups).2 ↔ name ∈ pending ∨ name ∈ sups ∧ name ∉ seen := by
  induction sups generalizing seen pending with
  | nil => simp [visit]
  | cons first rest ih =>
    simp only [visit]
    split
    · rename_i known
      rw [ih, List.mem_cons]
      have : first ∈ seen := known
      grind
    · rename_i new
      rw [ih, Std.HashSet.mem_insert, List.mem_cons, List.mem_cons]
      have : first ∉ seen := new
      grind

/-- What becomes pending is no longer unseen. -/
theorem visit_room (known : ∀ name ∈ sups, name ∈ graph.names) :
    (visit seen pending sups).2.length + (graph.unseen (visit seen pending sups).1).card ≤
      pending.length + (graph.unseen seen).card := by
  induction sups generalizing seen pending with
  | nil => exact Nat.le_refl _
  | cons first rest ih =>
    have restKnown : ∀ name ∈ rest, name ∈ graph.names := fun name member =>
      known name (List.mem_cons_of_mem first member)
    simp only [visit]
    split
    · exact ih restKnown
    · rename_i new
      have fewer := card_unseen_insert (known first List.mem_cons_self) new
      refine (ih restKnown).trans ?_
      rw [List.length_cons]
      omega

/-- What is true of a search between two steps: classes that have been seen are in the graph, and
those that are no longer pending are not the target and have passed their supertypes on. -/
structure Searched (graph : ClassGraph) (target : ClassHeader) (pending : List BinaryName)
    (seen : Std.HashSet BinaryName) : Prop where
  known : ∀ name ∈ seen, name ∈ graph.names
  noted : ∀ name ∈ pending, name ∈ seen
  passed : ∀ name ∈ seen, name ∉ pending → name ≠ target.name ∧
    ∀ sup, graph.Edge target.isInterface name sup → sup ∈ seen

/-- A path to the target from a class that has been seen leads through a pending one. -/
theorem Searched.through_pending (searched : graph.Searched target pending seen)
    (path : Relation.ReflTransGen (graph.Edge target.isInterface) name target.name)
    (isSeen : name ∈ seen) :
    ∃ middle ∈ pending, Relation.ReflTransGen (graph.Edge target.isInterface) middle target.name := by
  induction path using Relation.ReflTransGen.head_induction_on with
  | refl =>
    by_contra none
    have passed : target.name ∉ pending := fun member => none ⟨_, member, .refl⟩
    exact (searched.passed _ isSeen passed).1 rfl
  | @head first second edge path ih =>
    by_cases waits : first ∈ pending
    · exact ⟨first, waits, .head edge path⟩
    · exact ih ((searched.passed first isSeen waits).2 second edge)

/-- The direct supertypes of a class of the graph, none if it is not there. -/
def above (graph : ClassGraph) (target : ClassHeader) (name : BinaryName) : List BinaryName :=
  match graph.find? name with
  | some header => supertypes target.isInterface header
  | none => []

theorem mem_above {sup : BinaryName} :
    sup ∈ graph.above target name ↔ graph.Edge target.isInterface name sup := by
  unfold above Edge
  split <;> simp_all

/-- One step of the search. -/
theorem Searched.visit (closed : graph.Closed)
    (searched : graph.Searched target (name :: pending) seen) (other : name ≠ target.name) :
    graph.Searched target (visit seen pending (graph.above target name)).2
      (visit seen pending (graph.above target name)).1 where
  known := by
    intro found member
    rcases mem_visit_seen.mp member with earlier | new
    · exact searched.known found earlier
    · exact closed.edge (mem_above.mp new)
  noted := by
    intro found member
    refine mem_visit_seen.mpr ?_
    rcases mem_visit_pending.mp member with earlier | ⟨new, -⟩
    · exact .inl (searched.noted found (List.mem_cons_of_mem name earlier))
    · exact .inr new
  passed := by
    intro found member settled
    have isSeen : found ∈ seen := by
      by_contra new
      have listed := (mem_visit_seen.mp member).resolve_left new
      exact settled (mem_visit_pending.mpr (.inr ⟨listed, new⟩))
    have notPending : found ∉ pending := fun waits => settled (mem_visit_pending.mpr (.inl waits))
    by_cases here : found = name
    · subst here
      exact ⟨other, fun sup edge => mem_visit_seen.mpr (.inr (mem_above.mpr edge))⟩
    · obtain ⟨different, passesOn⟩ := searched.passed found isSeen (by simp [here, notPending])
      exact ⟨different, fun sup edge => mem_visit_seen.mpr (.inl (passesOn sup edge))⟩

/-- The search succeeds exactly if a path leads to the target from a pending class. -/
theorem reaches_iff (closed : graph.Closed) {fuel : Nat}
    (searched : graph.Searched target pending seen)
    (room : pending.length + (graph.unseen seen).card < fuel) :
    graph.reaches target fuel pending seen = true ↔ ∃ name ∈ pending,
      Relation.ReflTransGen (graph.Edge target.isInterface) name target.name := by
  induction fuel generalizing pending seen with
  | zero => omega
  | succ fuel ih =>
    cases pending with
    | nil => simp [reaches]
    | cons name pending =>
      rw [reaches]
      split
      · rename_i here
        simp only [true_iff]
        exact ⟨name, List.mem_cons_self, here ▸ .refl⟩
      · rename_i other
        change graph.reaches target fuel (ClassGraph.visit seen pending (graph.above target name)).2
          (ClassGraph.visit seen pending (graph.above target name)).1 = true ↔ _
        have visited := searched.visit closed other
        have aboveKnown : ∀ sup ∈ graph.above target name, sup ∈ graph.names :=
          fun sup member => closed.edge (mem_above.mp member)
        have left : _ ≤ pending.length + (graph.unseen seen).card := visit_room aboveKnown
        rw [List.length_cons] at room
        rw [ih visited (by omega)]
        constructor
        · rintro ⟨middle, member, path⟩
          rcases mem_visit_pending.mp member with earlier | ⟨new, -⟩
          · exact ⟨middle, List.mem_cons_of_mem name earlier, path⟩
          · exact ⟨name, List.mem_cons_self, .head (mem_above.mp new) path⟩
        · rintro ⟨first, member, path⟩
          exact visited.through_pending path (mem_visit_seen.mpr (.inl (searched.noted first member)))

/-- A search that starts from one class of the graph has steps enough. -/
theorem room_start (known : name ∈ graph.names) :
    [name].length + (graph.unseen (Std.HashSet.ofList [name])).card < graph.classes.size + 1 := by
  have fewer : (graph.unseen (Std.HashSet.ofList [name])).card < graph.names.card := by
    apply Finset.card_lt_card
    refine ⟨Finset.filter_subset _ _, fun covers => ?_⟩
    exact (Finset.mem_filter.mp (covers known)).2 (by simp)
  have size : graph.names.card ≤ graph.classes.size := card_names_le
  rw [List.length_singleton]
  omega

/-- One class is assignable to another exactly if a path of supertypes leads from it to there. -/
theorem isAssignable_iff (closed : graph.Closed) {source : ClassHeader}
    (known : graph.find? source.name = some source) :
    graph.isAssignable source target = true ↔
      Relation.ReflTransGen (graph.Edge target.isInterface) source.name target.name := by
  have inNames : source.name ∈ graph.names := mem_names.mpr ⟨source, known⟩
  have isSeen {name : BinaryName} :
      name ∈ Std.HashSet.ofList [source.name] ↔ name = source.name := by
    rw [Std.HashSet.mem_ofList, List.contains_iff_mem, List.mem_singleton]
  have searched : graph.Searched target [source.name] (Std.HashSet.ofList [source.name]) := by
    refine ⟨fun name member => isSeen.mp member ▸ inNames, fun name member => ?_,
      fun name member settled => ?_⟩
    · exact isSeen.mpr (List.mem_singleton.mp member)
    · exact (settled (List.mem_singleton.mpr (isSeen.mp member))).elim
  rw [isAssignable, reaches_iff closed searched (room_start inNames)]
  simp

end ClassGraph

end ClassWeave
