import ClassWeave.Proofs.ClassGraph.CommonSuperclass

/-!
# Assignability

The search for a supertype, told without a limit on its steps. It ends for every two classes of a
graph, visits no class twice and no interface on the way to a class, and it finds the supertype
exactly if superclasses and interfaces lead there.
-/

namespace ClassWeave

open Relation

namespace ClassGraph

variable {graph : ClassGraph} {target : ClassHeader} {pending visited sups : List BinaryName}
  {seen : Std.HashSet BinaryName} {answer : Bool}

/-- The search from some pending classes ends with an answer. It visits one class after the other
until it comes upon the target or none is pending. -/
inductive Search (graph : ClassGraph) (target : ClassHeader) : (pending : List BinaryName) →
    (seen : Std.HashSet BinaryName) → (visited : List BinaryName) → (answer : Bool) → Prop where
  | exhausted (seen : Std.HashSet BinaryName) : Search graph target [] seen [] false
  | found (pending : List BinaryName) (seen : Std.HashSet BinaryName) :
      Search graph target (target.name :: pending) seen [target.name] true
  | next {name : BinaryName} {pending visited : List BinaryName} {seen : Std.HashSet BinaryName}
      {answer : Bool} (other : name ≠ target.name)
      (rest : Search graph target (visit seen pending (graph.above target name)).2
        (visit seen pending (graph.above target name)).1 visited answer) :
      Search graph target (name :: pending) seen (name :: visited) answer

/-- The search ends before it runs out of steps, as each class becomes pending once. -/
theorem reaches_search (closed : graph.Closed) {fuel : Nat}
    (room : pending.length + (graph.unseen seen).card < fuel) :
    ∃ visited, graph.Search target pending seen visited
      (graph.reaches target fuel pending seen) := by
  induction fuel generalizing pending seen with
  | zero => omega
  | succ fuel ih =>
    cases pending with
    | nil => exact ⟨[], .exhausted seen⟩
    | cons name pending =>
      rw [reaches]
      split
      · rename_i here
        subst here
        exact ⟨_, .found pending seen⟩
      · rename_i other
        have aboveKnown : ∀ sup ∈ graph.above target name, sup ∈ graph.names :=
          fun sup member => closed.edge (mem_above.mp member)
        -- what becomes pending is no longer unseen, and the class itself leaves
        have left : _ ≤ pending.length + (graph.unseen seen).card := visit_room aboveKnown
        rw [List.length_cons] at room
        obtain ⟨visited, rest⟩ := ih (lt_of_le_of_lt left (by omega))
        exact ⟨name :: visited, .next other rest⟩

theorem visit_nodup (noted : ∀ name ∈ pending, name ∈ seen) (different : pending.Nodup) :
    (visit seen pending sups).2.Nodup := by
  induction sups generalizing seen pending with
  | nil => exact different
  | cons first rest ih =>
    simp only [visit]
    split
    · exact ih noted different
    · rename_i new
      have notPending : first ∉ pending := fun waits => new (noted first waits)
      refine ih (fun name member => ?_) (List.nodup_cons.mpr ⟨notPending, different⟩)
      rcases List.mem_cons.mp member with rfl | waits
      · exact Std.HashSet.mem_insert_self
      · exact Std.HashSet.mem_insert.mpr (.inr (noted name waits))

theorem mem_visit_noted (noted : ∀ name ∈ pending, name ∈ seen) :
    ∀ name ∈ (visit seen pending sups).2, name ∈ (visit seen pending sups).1 := by
  intro name member
  refine mem_visit_seen.mpr ?_
  rcases mem_visit_pending.mp member with waits | ⟨listed, -⟩
  · exact .inl (noted name waits)
  · exact .inr listed

namespace Search

/-- What is visited was pending at the start or had not been seen by then. So a class that has been
visited is not visited again. -/
theorem nodup_visited (search : graph.Search target pending seen visited answer)
    (noted : ∀ name ∈ pending, name ∈ seen) (different : pending.Nodup) :
    visited.Nodup ∧ ∀ name ∈ visited, name ∈ pending ∨ name ∉ seen := by
  induction search with
  | exhausted => simp
  | found => simp
  | @next first pending visited seen _ _ _ ih =>
    obtain ⟨notPending, different⟩ := List.nodup_cons.mp different
    obtain ⟨isSeen, noted⟩ := List.forall_mem_cons.mp noted
    obtain ⟨nodup, origin⟩ := ih (mem_visit_noted noted) (visit_nodup noted different)
    have settled (name : BinaryName) (member : name ∈ visited) : name ∈ pending ∨ name ∉ seen := by
      rcases origin name member with waits | new
      · exact (mem_visit_pending.mp waits).imp_right And.right
      · exact .inr fun old => new (mem_visit_seen.mpr (.inl old))
    have notAgain : first ∉ visited := fun again =>
      (settled first again).elim notPending fun new => new isSeen
    refine ⟨List.nodup_cons.mpr ⟨notAgain, nodup⟩, List.forall_mem_cons.mpr ⟨?_, ?_⟩⟩
    · exact .inl List.mem_cons_self
    · exact fun name member => (settled name member).imp_left (List.mem_cons_of_mem first)

/-- Only supertypes that the search may pass are visited. -/
theorem path_visited (search : graph.Search target pending seen visited answer) :
    ∀ name ∈ visited, ∃ start ∈ pending,
      ReflTransGen (graph.Edge target.isInterface) start name := by
  induction search with
  | exhausted => simp
  | found pending => simpa using .inl .refl
  | @next first pending visited seen _ _ _ ih =>
    refine List.forall_mem_cons.mpr ⟨⟨first, List.mem_cons_self, .refl⟩, fun name member => ?_⟩
    obtain ⟨start, waits, path⟩ := ih name member
    rcases mem_visit_pending.mp waits with earlier | ⟨listed, -⟩
    · exact ⟨start, List.mem_cons_of_mem first earlier, path⟩
    · exact ⟨first, List.mem_cons_self, .head (mem_above.mp listed) path⟩

end Search

/-- Listed interfaces are interfaces, interfaces extend nothing but the root, and all superclasses
lead to the root, which has none. -/
structure WellFormed (graph : ClassGraph) : Prop where
  interfaces {name sup : BinaryName} {header above : ClassHeader} :
    graph.find? name = some header → sup ∈ header.interfaces →
    graph.find? sup = some above → above.isInterface = true
  ofInterface {name sup : BinaryName} {header : ClassHeader} :
    graph.find? name = some header → header.isInterface = true →
    header.superclass = some sup → sup = .object
  rooted {name : BinaryName} : graph.Knows name → ReflTransGen (graph.Edge false) name .object
  root {header : ClassHeader} : graph.find? .object = some header → header.superclass = none

namespace WellFormed

variable {sub sup : BinaryName} (wf : graph.WellFormed)

include wf

/-- Above an interface there are no classes but the root. -/
theorem object_of_interface {header : ClassHeader} (found : graph.find? sub = some header)
    (isInterface : header.isInterface = true) (above : graph.Edge false sub sup) :
    sup = .object := by
  obtain ⟨_, again, listed⟩ := above
  cases found.symm.trans again
  rcases mem_supertypes.mp listed with isSuper | ⟨skipped, -⟩
  · exact wf.ofInterface found isInterface isSuper
  · cases skipped

theorem no_edge : ¬ graph.Edge false .object sup := by
  rintro ⟨header, found, listed⟩
  simp [mem_supertypes, wf.root found] at listed

/-- A path to a class can do without interfaces: what is above an interface is above every class. -/
theorem path_to_class (closed : graph.Closed) (path : ReflTransGen (graph.Edge true) sub sup)
    (isClass : ∀ header, graph.find? sup = some header → header.isInterface = false) :
    ReflTransGen (graph.Edge false) sub sup := by
  induction path using ReflTransGen.head_induction_on with
  | refl => exact .refl
  | @head first second edge _ onwards =>
    obtain ⟨header, found, listed⟩ := edge
    rcases mem_supertypes.mp listed with isSuper | ⟨-, implemented⟩
    · exact .head ⟨header, found, mem_supertypes.mpr (.inl isSuper)⟩ onwards
    -- behind an interface comes at most the root, which the class reaches without it
    obtain ⟨above, aboveFound⟩ := closed found second listed
    have isInterface := wf.interfaces found implemented aboveFound
    rcases ReflTransGen.cases_head onwards with rfl | ⟨third, step, rest⟩
    · simp [isClass above aboveFound] at isInterface
    · cases wf.object_of_interface aboveFound isInterface step
      rcases ReflTransGen.cases_head rest with rfl | ⟨_, beyond, _⟩
      · exact wf.rooted ⟨header, found⟩
      · exact (wf.no_edge beyond).elim

/-- Which supertypes the search may pass makes no difference to which targets there are paths to. -/
theorem path_iff (closed : graph.Closed) {b : ClassHeader} (has : graph.Has b) :
    ReflTransGen (graph.Edge b.isInterface) sub b.name ↔
      ReflTransGen (graph.Edge true) sub b.name := by
  refine ⟨ReflTransGen.mono (fun _ _ => Edge.toInterface) _ _, fun path => ?_⟩
  cases kind : b.isInterface with
  | true => exact path
  | false =>
    refine wf.path_to_class closed path fun header found => ?_
    cases found.symm.trans has
    exact kind

end WellFormed

/-- What is loaded from a well-formed source is well formed. -/
theorem Faithful.wellFormed {source : ClassSource} (faithful : graph.Faithful source)
    (wf : source.WellFormed) : graph.WellFormed where
  interfaces found listed aboveFound :=
    wf.interfaces (faithful.found found).1 listed (faithful.found aboveFound).1
  ofInterface found isInterface isSuper :=
    Option.some.inj (isSuper.symm.trans (wf.ofInterface (faithful.found found).1 isInterface))
  rooted := by
    rintro name ⟨header, found⟩
    have below := wf.below_object (faithful.found found).2
    exact (faithful.path_iff faithful.superclass_iff ⟨header, found⟩).mpr below
  root found := (wf.root (faithful.found found).1).1

/-- For two classes of a graph the search ends. It visits no class twice, and on the way to a class
only superclasses, yet it finds the target exactly if superclasses and interfaces lead there. A
class comes into a graph after its supertypes, so every graph that was loaded is closed. -/
theorem isAssignable_ends_iff (closed : graph.Closed) (wf : graph.WellFormed) {a b : ClassHeader}
    (hasA : graph.Has a) (hasB : graph.Has b) :
    (∃ visited, graph.Search b [a.name] (Std.HashSet.ofList [a.name]) visited
        (graph.isAssignable a b) ∧ visited.Nodup ∧
        ∀ name ∈ visited, ReflTransGen (graph.Edge b.isInterface) a.name name) ∧
      (graph.isAssignable a b = true ↔ ReflTransGen (graph.Edge true) a.name b.name) := by
  obtain ⟨visited, search⟩ := reaches_search closed (room_start (mem_names.mpr ⟨a, hasA⟩))
  have noted : ∀ name ∈ [a.name], name ∈ Std.HashSet.ofList [a.name] := by simp
  refine ⟨⟨visited, search, (search.nodup_visited noted (List.nodup_singleton _)).1, ?_⟩, ?_⟩
  · intro name member
    obtain ⟨start, isStart, path⟩ := search.path_visited name member
    exact List.mem_singleton.mp isStart ▸ path
  · rw [isAssignable_iff closed hasA, wf.path_iff closed hasB]

end ClassGraph

/-- A class that can be loaded is in the graph once it has been asked for. -/
theorem GraphM.knows_resolve {source : ClassSource} {graph : ClassGraph} {name : BinaryName}
    (bounded : source.Bounded) (faithful : graph.Faithful source) (loads : source.Loads name) :
    (resolve source name graph).2.Knows name := by
  obtain ⟨header, answer⟩ := resolve_answers bounded loads graph faithful
  exact ⟨header, (resolve_keeps name graph faithful trivial).2.2 header answer⟩

namespace Pets

/-- What is loaded when both classes have been asked for. -/
def graph : ClassGraph :=
  (GraphM.resolve source cat (GraphM.resolve source dog .empty).2).2

theorem graph_loaded : graph.LoadedFrom source := .resolve (.resolve .empty dog) cat

theorem dog_implements : source.Edge dog tame :=
  ⟨_, found ⟨dog, some animal, [tame], false⟩ (by decide), .inr (by decide)⟩

theorem graph_knows : graph.Knows dog ∧ graph.Knows cat ∧ graph.Knows tame := by
  have bounded : source.Bounded := ClassSource.ofHeaders_bounded headers
  have dogLoaded : (GraphM.resolve source dog .empty).2.LoadedFrom source := .resolve .empty dog
  have knowsDog : graph.Knows dog :=
    (GraphM.knows_resolve bounded ClassGraph.empty_faithful loads.1).grows
      (GraphM.resolve_keeps cat _ dogLoaded.faithful trivial).2.1
  exact ⟨knowsDog, GraphM.knows_resolve bounded dogLoaded.faithful loads.2,
    graph_loaded.faithful.knows_of_path knowsDog (.single dog_implements)⟩

end Pets

theorem dog_reaches_tame :
    Pets.graph.LoadedFrom Pets.source ∧ Pets.graph.WellFormed ∧
    ∃ dog cat tame, (dog.name = Pets.dog ∧ Pets.graph.Has dog) ∧
      (cat.name = Pets.cat ∧ Pets.graph.Has cat) ∧ (tame.name = Pets.tame ∧ Pets.graph.Has tame) ∧
      (∃ visited, Pets.graph.Search tame [dog.name] (.ofList [dog.name]) visited true) ∧
      ∃ visited, Pets.graph.Search tame [cat.name] (.ofList [cat.name]) visited false := by
  have faithful := Pets.graph_loaded.faithful
  have wf := faithful.wellFormed Pets.wellFormed
  obtain ⟨⟨dog, foundDog⟩, ⟨cat, foundCat⟩, ⟨tame, foundTame⟩⟩ := Pets.graph_knows
  obtain ⟨isDog, hasDog⟩ := faithful.has foundDog
  obtain ⟨isCat, hasCat⟩ := faithful.has foundCat
  obtain ⟨isTame, hasTame⟩ := faithful.has foundTame
  obtain ⟨⟨visited, search, -⟩, yes⟩ :=
    ClassGraph.isAssignable_ends_iff faithful.closed wf hasDog hasTame
  obtain ⟨⟨otherVisited, otherSearch, -⟩, no⟩ :=
    ClassGraph.isAssignable_ends_iff faithful.closed wf hasCat hasTame
  rw [faithful.path_iff faithful.edge_iff ⟨_, hasDog⟩, isDog, isTame] at yes
  rw [faithful.path_iff faithful.edge_iff ⟨_, hasCat⟩, isCat, isTame] at no
  have unrelated : Pets.graph.isAssignable cat tame = false :=
    Bool.eq_false_iff.mpr fun reached => absurd (Pets.above_cat (no.mp reached)) (by decide)
  rw [yes.mpr (.single Pets.dog_implements)] at search
  rw [unrelated] at otherSearch
  exact ⟨Pets.graph_loaded, wf, dog, cat, tame, ⟨isDog, hasDog⟩, ⟨isCat, hasCat⟩,
    ⟨isTame, hasTame⟩, ⟨visited, search⟩, ⟨otherVisited, otherSearch⟩⟩

end ClassWeave
