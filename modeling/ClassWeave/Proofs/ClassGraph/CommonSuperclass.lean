import ClassWeave.Proofs.ClassGraph.Loading

/-!
# Common superclasses

In a hierarchy that is well formed, the way to a class leads through superclasses only, and all
classes share the root. So the first superclass that another class is assignable to is the closest
one that they share, and it is the same for both orders and for all that was loaded before.
-/

namespace ClassWeave

open Relation

namespace ClassSource

variable {source : ClassSource} {a b common sub sup : BinaryName}

/-- Superclasses are classes, listed interfaces are interfaces, interfaces extend the root, and the
root is the only class without a superclass and has no interfaces. -/
structure WellFormed (source : ClassSource) : Prop where
  superclass {name sup : BinaryName} {header above : ClassHeader} :
    source.find name = .ok (some header) → header.superclass = some sup →
    source.find sup = .ok (some above) → above.isInterface = false
  interfaces {name sup : BinaryName} {header above : ClassHeader} :
    source.find name = .ok (some header) → sup ∈ header.interfaces →
    source.find sup = .ok (some above) → above.isInterface = true
  ofInterface {name : BinaryName} {header : ClassHeader} :
    source.find name = .ok (some header) → header.isInterface = true →
    header.superclass = some .object
  rootOnly {name : BinaryName} {header : ClassHeader} :
    source.find name = .ok (some header) → header.superclass = none → name = .object
  root {header : ClassHeader} : source.find .object = .ok (some header) →
    header.superclass = none ∧ header.interfaces = []

/-- A class that the source has, and its superclass. -/
def Superclass (source : ClassSource) (sub sup : BinaryName) : Prop :=
  ∃ header, source.find sub = .ok (some header) ∧ header.superclass = some sup

/-- Superclasses lead from one class to the other. -/
def Subclass (source : ClassSource) : BinaryName → BinaryName → Prop :=
  ReflTransGen source.Superclass

/-- Superclasses and interfaces lead from one class to the other. -/
def Assignable (source : ClassSource) : BinaryName → BinaryName → Prop :=
  ReflTransGen source.Edge

def IsInterface (source : ClassSource) (name : BinaryName) : Prop :=
  ∃ header, source.find name = .ok (some header) ∧ header.isInterface = true

theorem Superclass.edge (above : source.Superclass sub sup) : source.Edge sub sup :=
  above.imp fun _ found => ⟨found.1, .inl found.2⟩

theorem Superclass.unique {other : BinaryName} (above : source.Superclass sub sup)
    (otherAbove : source.Superclass sub other) : sup = other := by
  obtain ⟨header, found, isSuper⟩ := above
  obtain ⟨_, otherFound, otherSuper⟩ := otherAbove
  cases found.symm.trans otherFound
  exact Option.some.inj (isSuper.symm.trans otherSuper)

theorem Subclass.assignable (below : source.Subclass sub sup) : source.Assignable sub sup :=
  ReflTransGen.mono (fun _ _ => Superclass.edge) _ _ below

theorem Assignable.antisymm (loads : source.Loads a) (there : source.Assignable a b)
    (back : source.Assignable b a) : a = b := by
  rcases ReflTransGen.cases_head there with same | ⟨next, edge, rest⟩
  · exact same
  · exact (loads.acyclic edge (rest.trans back)).elim

namespace WellFormed

variable (wf : source.WellFormed)

include wf

theorem no_edge : ¬ source.Edge .object sup := by
  rintro ⟨header, found, listed⟩
  obtain ⟨noSuperclass, noInterfaces⟩ := wf.root found
  simp [noSuperclass, noInterfaces] at listed

theorem object_assignable (path : source.Assignable .object sup) : sup = .object := by
  rcases ReflTransGen.cases_head path with same | ⟨_, edge, _⟩
  · exact same.symm
  · exact (wf.no_edge edge).elim

/-- Every class that can be loaded is below the root. -/
theorem below_object (loads : source.Loads sub) : source.Subclass sub .object := by
  induction loads with
  | @mk name header found _ _ ih =>
    cases above : header.superclass with
    | none => exact wf.rootOnly found above ▸ .refl
    | some sup => exact .head ⟨header, found, above⟩ (ih sup ⟨header, found, .inl above⟩)

theorem interface_below (isInterface : source.IsInterface sub) (below : source.Subclass sub sup) :
    sup = sub ∨ sup = .object := by
  rcases ReflTransGen.cases_head below with same | ⟨next, above, rest⟩
  · exact .inl same.symm
  · obtain ⟨header, found, flag⟩ := isInterface
    have next_eq : next = .object :=
      Superclass.unique above ⟨header, found, wf.ofInterface found flag⟩
    subst next_eq
    exact .inr (wf.object_assignable (Subclass.assignable rest))

theorem class_above (isClass : ¬ source.IsInterface sub) (below : source.Subclass sub sup) :
    ¬ source.IsInterface sup := by
  rcases ReflTransGen.cases_tail below with rfl | ⟨_, _, ⟨_, found, isSuper⟩⟩
  · exact isClass
  · rintro ⟨above, aboveFound, isInterface⟩
    have := wf.superclass found isSuper aboveFound
    simp [isInterface] at this

/-- The way to a class leads through superclasses only. -/
theorem subclass_of_assignable (loads : source.Loads sub) (path : source.Assignable sub sup)
    (isClass : ¬ source.IsInterface sup) : source.Subclass sub sup := by
  induction path using ReflTransGen.head_induction_on with
  | refl => exact .refl
  | @head first second edge path ih =>
    have belowSecond := ih (loads.edge edge)
    obtain ⟨header, found, above | listed⟩ := edge
    · exact .head ⟨header, found, above⟩ belowSecond
    · obtain ⟨above, aboveFound, -⟩ := (loads.edge ⟨header, found, .inr listed⟩).header
      have isInterface : source.IsInterface second :=
        ⟨above, aboveFound, wf.interfaces found listed aboveFound⟩
      -- an interface has no superclass but the root, which all classes are below
      rcases wf.interface_below isInterface belowSecond with rfl | rfl
      · exact (isClass isInterface).elim
      · exact wf.below_object loads

end WellFormed

/-- The closest class that two classes can both be used as. -/
structure IsCommonSuperclass (source : ClassSource) (a b common : BinaryName) : Prop where
  left : source.Assignable a common
  right : source.Assignable b common
  ofLeft : source.Assignable a b → common = b
  ofRight : source.Assignable b a → common = a
  root : ¬ source.Assignable a b → ¬ source.Assignable b a →
    source.IsInterface a ∨ source.IsInterface b → common = .object
  closest : ¬ source.Assignable a b → ¬ source.Assignable b a →
    ¬ source.IsInterface a → ¬ source.IsInterface b →
      source.Subclass a common ∧ source.Subclass b common ∧
        ∀ other, source.Subclass a other → source.Subclass b other → source.Subclass common other

namespace IsCommonSuperclass

theorem ofAssignable (loads : source.Loads b) (back : source.Assignable b a) :
    source.IsCommonSuperclass a b a where
  left := .refl
  right := back
  ofLeft forth := (Assignable.antisymm loads back forth).symm
  ofRight _ := rfl
  root _ unrelated := (unrelated back).elim
  closest _ unrelated := (unrelated back).elim

theorem symm (isCommon : source.IsCommonSuperclass a b common) :
    source.IsCommonSuperclass b a common where
  left := isCommon.right
  right := isCommon.left
  ofLeft := isCommon.ofRight
  ofRight := isCommon.ofLeft
  root unrelated related either := isCommon.root related unrelated either.symm
  closest unrelated related isClass otherIsClass := by
    obtain ⟨left, right, least⟩ := isCommon.closest related unrelated otherIsClass isClass
    exact ⟨right, left, fun other below belowToo => least other belowToo below⟩

theorem unique {other : BinaryName} (loads : source.Loads a)
    (isCommon : source.IsCommonSuperclass a b common)
    (otherIsCommon : source.IsCommonSuperclass a b other) : common = other := by
  by_cases forth : source.Assignable a b
  · rw [isCommon.ofLeft forth, otherIsCommon.ofLeft forth]
  by_cases back : source.Assignable b a
  · rw [isCommon.ofRight back, otherIsCommon.ofRight back]
  by_cases either : source.IsInterface a ∨ source.IsInterface b
  · rw [isCommon.root forth back either, otherIsCommon.root forth back either]
  · obtain ⟨isClass, otherIsClass⟩ := not_or.mp either
    obtain ⟨left, right, least⟩ := isCommon.closest forth back isClass otherIsClass
    obtain ⟨otherLeft, otherRight, otherLeast⟩ :=
      otherIsCommon.closest forth back isClass otherIsClass
    exact Assignable.antisymm (loads.path left.assignable) (least _ otherLeft otherRight).assignable
      (otherLeast _ left right).assignable

end IsCommonSuperclass

end ClassSource

namespace ClassGraph

variable {source : ClassSource} {graph : ClassGraph} {sub sup : BinaryName}
  {a b header : ClassHeader}

/-- A class of a graph, under its name. -/
def Has (graph : ClassGraph) (header : ClassHeader) : Prop := graph.find? header.name = some header

namespace Faithful

variable (faithful : graph.Faithful source)

include faithful

theorem has {name : BinaryName} (found : graph.find? name = some header) :
    header.name = name ∧ graph.Has header := by
  obtain ⟨inSource, loads⟩ := faithful.found found
  obtain ⟨_, again, named⟩ := loads.header
  cases inSource.symm.trans again
  exact ⟨named, (congrArg graph.find? named).trans found⟩

theorem found_iff (knows : graph.Knows sub) :
    source.find sub = .ok (some header) ↔ graph.find? sub = some header := by
  obtain ⟨other, found⟩ := knows
  rw [(faithful.found found).1, found]
  simp

theorem edge_iff (knows : graph.Knows sub) : graph.Edge true sub sup ↔ source.Edge sub sup := by
  simp only [Edge, ClassSource.Edge, mem_supertypes, true_and, faithful.found_iff knows]

theorem superclass_iff (knows : graph.Knows sub) :
    graph.Edge false sub sup ↔ source.Superclass sub sup := by
  simp only [Edge, ClassSource.Superclass, mem_supertypes, Bool.false_eq_true, false_and, or_false,
    faithful.found_iff knows]

/-- Paths in the graph are those that the source has from the classes of the graph. -/
theorem path_iff {toInterface : Bool} {edge : BinaryName → BinaryName → Prop}
    (same : ∀ {sub sup}, graph.Knows sub → (graph.Edge toInterface sub sup ↔ edge sub sup))
    (knows : graph.Knows sub) :
    ReflTransGen (graph.Edge toInterface) sub sup ↔ ReflTransGen edge sub sup := by
  constructor
  · exact ReflTransGen.mono
      (fun _ _ step => (same (step.imp fun _ found => found.1)).mp step) _ _
  · intro path
    suffices both : ReflTransGen (graph.Edge toInterface) sub sup ∧ graph.Knows sup from both.1
    induction path with
    | refl => exact ⟨.refl, knows⟩
    | tail _ step ih =>
      have inGraph := (same ih.2).mpr step
      exact ⟨ih.1.tail inGraph, mem_names.mp (faithful.closed.edge inGraph)⟩

theorem isInterface_iff (has : graph.Has header) :
    source.IsInterface header.name ↔ header.isInterface = true := by
  simp [ClassSource.IsInterface, (faithful.found has).1]

theorem isAssignable_iff (wf : source.WellFormed) (hasA : graph.Has a) (hasB : graph.Has b) :
    graph.isAssignable a b = true ↔ source.Assignable a.name b.name := by
  rw [ClassGraph.isAssignable_iff faithful.closed hasA]
  cases kind : b.isInterface with
  | true => exact faithful.path_iff faithful.edge_iff ⟨a, hasA⟩
  | false =>
    have isClass : ¬ source.IsInterface b.name := by simp [faithful.isInterface_iff hasB, kind]
    rw [faithful.path_iff faithful.superclass_iff ⟨a, hasA⟩]
    exact ⟨ClassSource.Subclass.assignable,
      fun path => wf.subclass_of_assignable (faithful.found hasA).2 path isClass⟩

end Faithful

open Classical in
/-- The classes of the graph that a class is below. -/
noncomputable def lineage (graph : ClassGraph) (source : ClassSource) (name : BinaryName) :
    Finset BinaryName :=
  graph.names.filter (source.Subclass name)

theorem mem_lineage {name : BinaryName} :
    name ∈ graph.lineage source sub ↔ graph.Knows name ∧ source.Subclass sub name := by
  simp [lineage, mem_names]

theorem card_lineage_le : (graph.lineage source sub).card ≤ graph.classes.size := by
  classical
  exact (Finset.card_filter_le _ _).trans card_names_le

namespace Faithful

variable (faithful : graph.Faithful source)

include faithful

/-- Each superclass has fewer classes above it. -/
theorem card_lineage_lt (knows : graph.Knows sub) (above : source.Superclass sub sup) :
    (graph.lineage source sup).card < (graph.lineage source sub).card := by
  obtain ⟨header, found⟩ := knows
  apply Finset.card_lt_card
  refine ⟨fun name member => ?_, fun covers => ?_⟩
  · obtain ⟨isThere, below⟩ := mem_lineage.mp member
    exact mem_lineage.mpr ⟨isThere, .head above below⟩
  · have back := (mem_lineage.mp (covers (mem_lineage.mpr ⟨⟨header, found⟩, .refl⟩))).2
    exact (faithful.found found).2.acyclic above.edge back.assignable

/-- A class that is strictly above another is its superclass or above that. -/
theorem superclass_of_below {other : ClassHeader} (has : graph.Has header)
    (hasOther : graph.Has other) (below : source.Subclass header.name other.name)
    (different : header ≠ other) :
    ∃ superclass, header.superclass.bind graph.find? = some superclass ∧ graph.Has superclass ∧
      source.Superclass header.name superclass.name ∧
      source.Subclass superclass.name other.name := by
  rcases ReflTransGen.cases_head below with same | ⟨next, above, rest⟩
  · exact (different (Option.some.inj (has.symm.trans (same ▸ hasOther)))).elim
  · obtain ⟨_, found, isSuper⟩ := id above
    cases (faithful.found has).1.symm.trans found
    obtain ⟨superclass, aboveFound⟩ := faithful.closed has next (mem_supertypes.mpr (.inl isSuper))
    obtain ⟨rfl, hasSuperclass⟩ := faithful.has aboveFound
    exact ⟨superclass, by rw [isSuper]; exact aboveFound, hasSuperclass, above, rest⟩

/-- Of the superclasses with a property the closest is found, provided there is one. -/
theorem find?_superclasses (shared : ClassHeader → Bool) {top : ClassHeader} {fuel : Nat}
    (has : graph.Has header) (hasTop : graph.Has top)
    (below : source.Subclass header.name top.name) (isShared : shared top = true)
    (room : (graph.lineage source header.name).card ≤ fuel + 1) :
    ∃ closest, (header :: graph.ancestorsFrom fuel header).find? shared = some closest ∧
      graph.Has closest ∧ shared closest = true ∧ source.Subclass header.name closest.name ∧
      ∀ other, graph.Has other → shared other = true →
        source.Subclass header.name other.name → source.Subclass closest.name other.name := by
  induction fuel generalizing header with
  | zero =>
    by_cases here : shared header = true
    · exact ⟨header, List.find?_cons_of_pos here, has, here, .refl, fun _ _ _ => id⟩
    · obtain ⟨superclass, -, hasSuperclass, above, -⟩ :=
        faithful.superclass_of_below has hasTop below (by rintro rfl; exact here isShared)
      have fewer := faithful.card_lineage_lt ⟨header, has⟩ above
      have someAbove : 0 < (graph.lineage source superclass.name).card :=
        Finset.card_pos.mpr ⟨_, mem_lineage.mpr ⟨⟨superclass, hasSuperclass⟩, .refl⟩⟩
      omega
  | succ fuel ih =>
    by_cases here : shared header = true
    · exact ⟨header, List.find?_cons_of_pos here, has, here, .refl, fun _ _ _ => id⟩
    · obtain ⟨superclass, next, hasSuperclass, above, rest⟩ :=
        faithful.superclass_of_below has hasTop below (by rintro rfl; exact here isShared)
      have fewer := faithful.card_lineage_lt ⟨header, has⟩ above
      obtain ⟨closest, found, hasClosest, closestShared, closestAbove, least⟩ :=
        ih hasSuperclass rest (by omega)
      refine ⟨closest, ?_, hasClosest, closestShared, .head above closestAbove, ?_⟩
      · rw [List.find?_cons_of_neg here, ancestorsFrom, next]
        exact found
      · intro other hasOther otherShared otherAbove
        obtain ⟨_, again, _, _, onwards⟩ :=
          faithful.superclass_of_below has hasOther otherAbove (by rintro rfl; exact here otherShared)
        cases next.symm.trans again
        exact least other hasOther otherShared onwards

theorem knows_of_path (knows : graph.Knows sub) (path : source.Assignable sub sup) :
    graph.Knows sup := by
  induction path with
  | refl => exact knows
  | tail _ step ih => exact mem_names.mp (faithful.closed.edge ((faithful.edge_iff ih).mpr step))

theorem has_of_path {name : BinaryName} (has : graph.Has header)
    (path : source.Assignable header.name name) : ∃ above, above.name = name ∧ graph.Has above := by
  obtain ⟨above, found⟩ := faithful.knows_of_path ⟨header, has⟩ path
  exact ⟨above, faithful.has found⟩

/-- What is answered for two classes of a graph is the closest that they share. -/
theorem meetingPoint_isCommonSuperclass (wf : source.WellFormed) (hasA : graph.Has a)
    (hasB : graph.Has b) :
    source.IsCommonSuperclass a.name b.name (graph.meetingPoint a b) := by
  have loadsA := (faithful.found hasA).2
  have loadsB := (faithful.found hasB).2
  rw [meetingPoint]
  by_cases back : graph.isAssignable b a = true
  · rw [if_pos back]
    exact .ofAssignable loadsB ((faithful.isAssignable_iff wf hasB hasA).mp back)
  by_cases forth : graph.isAssignable a b = true
  · rw [if_neg back, if_pos forth]
    exact (ClassSource.IsCommonSuperclass.ofAssignable loadsA
      ((faithful.isAssignable_iff wf hasA hasB).mp forth)).symm
  rw [if_neg back, if_neg forth]
  rw [faithful.isAssignable_iff wf hasB hasA] at back
  rw [faithful.isAssignable_iff wf hasA hasB] at forth
  have aBelow := wf.below_object loadsA
  have bBelow := wf.below_object loadsB
  by_cases either : (a.isInterface || b.isInterface) = true
  · rw [if_pos either]
    refine ⟨aBelow.assignable, bBelow.assignable, fun path => (forth path).elim,
      fun path => (back path).elim, fun _ _ _ => rfl, fun _ _ aIsClass bIsClass => ?_⟩
    rw [faithful.isInterface_iff hasA] at aIsClass
    rw [faithful.isInterface_iff hasB] at bIsClass
    simp [aIsClass, bIsClass] at either
  · rw [if_neg either]
    rw [Bool.or_eq_true, not_or, ← faithful.isInterface_iff hasA,
      ← faithful.isInterface_iff hasB] at either
    obtain ⟨object, named, hasObject⟩ := faithful.has_of_path hasA aBelow.assignable
    have room : (graph.lineage source a.name).card ≤ graph.classes.size + 1 :=
      Nat.le_succ_of_le card_lineage_le
    obtain ⟨closest, found, hasClosest, isShared, aBelowIt, least⟩ :=
      faithful.find?_superclasses (graph.isAssignable b) hasA hasObject (named ▸ aBelow)
        ((faithful.isAssignable_iff wf hasB hasObject).mpr (named ▸ bBelow.assignable)) room
    rw [faithful.isAssignable_iff wf hasB hasClosest] at isShared
    rw [superclasses, found]
    refine ⟨aBelowIt.assignable, isShared, fun path => (forth path).elim,
      fun path => (back path).elim, fun _ _ isInterface => (not_or.mpr either isInterface).elim,
      fun _ _ _ _ => ⟨aBelowIt, ?_, fun other aBelowOther bBelowOther => ?_⟩⟩
    · exact wf.subclass_of_assignable loadsB isShared (wf.class_above either.1 aBelowIt)
    · obtain ⟨above, rfl, hasAbove⟩ := faithful.has_of_path hasA aBelowOther.assignable
      exact least above hasAbove
        ((faithful.isAssignable_iff wf hasB hasAbove).mpr bBelowOther.assignable) aBelowOther

end Faithful

end ClassGraph

namespace GraphM

variable {source : ClassSource} {graph : ClassGraph} {a b common : BinaryName}

/-- Both classes are in the graph when they are compared. -/
theorem commonSuperclass_compares (a b : BinaryName) :
    Keeps source (fun _ => True) (commonSuperclass source a b) fun common graph =>
      ∃ headerA headerB, (headerA.name = a ∧ graph.Has headerA) ∧
        (headerB.name = b ∧ graph.Has headerB) ∧ common = graph.meetingPoint headerA headerB := by
  refine (resolve_keeps a).bind fun headerA => ?_
  refine (((resolve_keeps b).frame fun _ _ grows found => grows found).weaken
    (fun _ found => ⟨trivial, found⟩) fun _ _ => id).bind fun headerB => ?_
  rintro graph faithful ⟨foundB, foundA⟩
  refine ⟨faithful, .refl graph, fun common same => ?_⟩
  cases same
  exact ⟨headerA, headerB, faithful.has foundA, faithful.has foundB, rfl⟩

theorem commonSuperclass_keeps (wf : source.WellFormed) (a b : BinaryName) :
    Keeps source (fun _ => True) (commonSuperclass source a b) fun common _ =>
      source.Loads a ∧ source.Loads b ∧ source.IsCommonSuperclass a b common := by
  intro graph faithful holds
  obtain ⟨stays, grows, compares⟩ := commonSuperclass_compares a b graph faithful holds
  refine ⟨stays, grows, fun common answer => ?_⟩
  obtain ⟨headerA, headerB, ⟨rfl, hasA⟩, ⟨rfl, hasB⟩, rfl⟩ := compares common answer
  exact ⟨(stays.found hasA).2, (stays.found hasB).2,
    stays.meetingPoint_isCommonSuperclass wf hasA hasB⟩

theorem commonSuperclass_answers (bounded : source.Bounded) (loadsA : source.Loads a)
    (loadsB : source.Loads b) : Answers source (commonSuperclass source a b) :=
  (resolve_answers bounded loadsA).bind (resolve_keeps a) fun _ =>
    (resolve_answers bounded loadsB).bind (resolve_keeps b) fun _ _ _ => ⟨_, rfl⟩

/-- Whatever has been loaded before, an answer is the closest common superclass, also when it is
asked for the other way round. If no more classes can be found than the source says, that is answered
as well. -/
theorem commonSuperclass_exact (wf : source.WellFormed) (loaded : graph.LoadedFrom source)
    (answer : (commonSuperclass source a b graph).1 = .ok common) :
    source.IsCommonSuperclass a b common ∧
      ∀ other : ClassGraph, other.LoadedFrom source →
        (∀ back, (commonSuperclass source b a other).1 = .ok back → back = common) ∧
        (source.Bounded → (commonSuperclass source b a other).1 = .ok common) := by
  obtain ⟨-, -, answers⟩ := commonSuperclass_keeps wf a b graph loaded.faithful trivial
  obtain ⟨loadsA, loadsB, isCommon⟩ := answers common answer
  refine ⟨isCommon, fun other otherLoaded => ?_⟩
  have agrees (back : BinaryName) (backAnswer : (commonSuperclass source b a other).1 = .ok back) :
      back = common := by
    obtain ⟨-, -, answers⟩ := commonSuperclass_keeps wf b a other otherLoaded.faithful trivial
    exact (answers back backAnswer).2.2.unique loadsB isCommon.symm
  refine ⟨agrees, fun bounded => ?_⟩
  obtain ⟨back, backAnswer⟩ :=
    commonSuperclass_answers bounded loadsB loadsA other otherLoaded.faithful
  rw [backAnswer, agrees back backAnswer]

end GraphM

namespace ClassSource

variable {headers : List ClassHeader}

/-- For classes that are given up front, being well formed can be computed. -/
theorem ofHeaders_wellFormed
    (checked : ∀ header ∈ headers,
      (∀ above ∈ headers, (header.superclass = some above.name → above.isInterface = false) ∧
        (above.name ∈ header.interfaces → above.isInterface = true)) ∧
      (header.isInterface = true → header.superclass = some .object) ∧
      (header.superclass = none → header.name = .object) ∧
      (header.name = .object → header.superclass = none ∧ header.interfaces = [])) :
    (ofHeaders headers).WellFormed := by
  have listed {name : BinaryName} {header : ClassHeader}
      (found : (ofHeaders headers).find name = .ok (some header)) :
      header ∈ headers ∧ header.name = name := ofHeaders_found found
  constructor
  · intro _ _ header above found isSuper aboveFound
    obtain ⟨member, -⟩ := listed found
    obtain ⟨aboveMember, rfl⟩ := listed aboveFound
    exact ((checked header member).1 above aboveMember).1 isSuper
  · intro _ _ header above found isListed aboveFound
    obtain ⟨member, -⟩ := listed found
    obtain ⟨aboveMember, rfl⟩ := listed aboveFound
    exact ((checked header member).1 above aboveMember).2 isListed
  · intro _ header found
    exact (checked header (listed found).1).2.1
  · intro _ header found isNone
    obtain ⟨member, rfl⟩ := listed found
    exact (checked header member).2.2.1 isNone
  · intro header found
    obtain ⟨member, named⟩ := listed found
    exact (checked header member).2.2.2 named

theorem ofHeaders_edge (edge : (ofHeaders headers).Edge sub sup) :
    ∃ header ∈ headers, header.name = sub ∧
      (header.superclass = some sup ∨ sup ∈ header.interfaces) := by
  obtain ⟨header, found, above⟩ := edge
  exact ⟨header, (ofHeaders_found found).1, (ofHeaders_found found).2, above⟩

/-- A list of classes that holds the direct supertypes of each holds all that are above. -/
theorem ofHeaders_assignable {names : List BinaryName}
    (closed : ∀ header ∈ headers, header.name ∈ names →
      header.superclass.toList ++ header.interfaces ⊆ names)
    (member : sub ∈ names) (path : (ofHeaders headers).Assignable sub sup) : sup ∈ names := by
  induction path with
  | refl => exact member
  | tail _ edge ih =>
    obtain ⟨header, isListed, rfl, above⟩ := ofHeaders_edge edge
    refine closed header isListed ih (List.mem_append.mpr (above.imp_left fun isSuper => ?_))
    exact Option.mem_toList.mpr isSuper

theorem ofHeaders_loads {header : ClassHeader}
    (found : (ofHeaders headers).find sub = .ok (some header))
    (above : ∀ sup ∈ header.superclass.toList ++ header.interfaces, (ofHeaders headers).Loads sup) :
    (ofHeaders headers).Loads sub := by
  refine .mk found (ofHeaders_found found).2 fun sup ⟨other, again, isAbove⟩ => ?_
  cases found.symm.trans again
  refine above sup (List.mem_append.mpr (isAbove.imp_left fun isSuper => ?_))
  exact Option.mem_toList.mpr isSuper

end ClassSource

namespace Pets

def animal : BinaryName := ⟨"app/Animal", by decide⟩
def dog : BinaryName := ⟨"app/Dog", by decide⟩
def cat : BinaryName := ⟨"app/Cat", by decide⟩
def tame : BinaryName := ⟨"app/Tame", by decide⟩

/-- Two classes with one superclass, of which one implements an interface. -/
def headers : List ClassHeader :=
  [⟨.object, none, [], false⟩, ⟨tame, some .object, [], true⟩, ⟨animal, some .object, [], false⟩,
    ⟨dog, some animal, [tame], false⟩, ⟨cat, some animal, [], false⟩]

def source : ClassSource := .ofHeaders headers

theorem wellFormed : source.WellFormed := ClassSource.ofHeaders_wellFormed (by decide)

theorem found (header : ClassHeader) (listed : header ∈ headers) :
    source.find header.name = .ok (some header) :=
  ClassSource.ofHeaders_find_mem (by decide) listed

theorem loads_below (header : ClassHeader) (listed : header ∈ headers)
    (above : ∀ sup ∈ header.superclass.toList ++ header.interfaces, source.Loads sup) :
    source.Loads header.name :=
  ClassSource.ofHeaders_loads (found header listed) above

theorem loads : source.Loads dog ∧ source.Loads cat := by
  have object : source.Loads .object := loads_below ⟨.object, none, [], false⟩ (by decide) (by simp)
  have tameLoads : source.Loads tame :=
    loads_below ⟨tame, some .object, [], true⟩ (by decide) (by simp [object])
  have animalLoads : source.Loads animal :=
    loads_below ⟨animal, some .object, [], false⟩ (by decide) (by simp [object])
  constructor
  · exact loads_below ⟨dog, some animal, [tame], false⟩ (by decide)
      (by simp [animalLoads, tameLoads])
  · exact loads_below ⟨cat, some animal, [], false⟩ (by decide) (by simp [animalLoads])

theorem above_dog {sup : BinaryName} (path : source.Assignable dog sup) :
    sup ∈ [dog, animal, tame, .object] :=
  ClassSource.ofHeaders_assignable (by decide) (by decide) path

theorem above_cat {sup : BinaryName} (path : source.Assignable cat sup) :
    sup ∈ [cat, animal, .object] :=
  ClassSource.ofHeaders_assignable (by decide) (by decide) path

theorem isClass {name : BinaryName} (member : name ∈ [dog, cat]) :
    ¬ source.IsInterface name := by
  have flags : ∀ header ∈ headers, header.name ∈ [dog, cat] → header.isInterface = false := by
    decide
  rintro ⟨header, inSource, isInterface⟩
  obtain ⟨listed, rfl⟩ := ClassSource.ofHeaders_found inSource
  simp [flags header listed member] at isInterface

theorem dog_extends : source.Superclass dog animal :=
  ⟨_, found ⟨dog, some animal, [tame], false⟩ (by decide), rfl⟩

theorem cat_extends : source.Superclass cat animal :=
  ⟨_, found ⟨cat, some animal, [], false⟩ (by decide), rfl⟩

/-- Two classes that are not related share the superclass of both. -/
theorem closest {common : BinaryName} (isCommon : source.IsCommonSuperclass dog cat common) :
    common = animal := by
  obtain ⟨dogBelow, -, least⟩ := isCommon.closest (fun path => absurd (above_dog path) (by decide))
    (fun path => absurd (above_cat path) (by decide)) (isClass (by simp)) (isClass (by simp))
  have commonBelow := least animal (.single dog_extends) (.single cat_extends)
  rcases ReflTransGen.cases_head dogBelow with rfl | ⟨next, above, rest⟩
  · exact absurd (above_cat isCommon.right) (by decide)
  · cases dog_extends.unique above
    exact commonBelow.assignable.antisymm (loads.1.path dogBelow.assignable)
      (ClassSource.Subclass.assignable rest)

end Pets

theorem dog_meets_cat : Pets.source.WellFormed ∧
    (GraphM.commonSuperclass Pets.source Pets.dog Pets.cat .empty).1 = .ok Pets.animal ∧
    Pets.source.IsCommonSuperclass Pets.dog Pets.cat Pets.animal ∧
    (GraphM.commonSuperclass Pets.source Pets.cat Pets.dog .empty).1 = .ok Pets.animal := by
  have bounded : Pets.source.Bounded := ClassSource.ofHeaders_bounded Pets.headers
  obtain ⟨common, answer⟩ := GraphM.commonSuperclass_answers bounded Pets.loads.1 Pets.loads.2
    .empty ClassGraph.empty_faithful
  obtain ⟨isCommon, others⟩ := GraphM.commonSuperclass_exact Pets.wellFormed .empty answer
  cases Pets.closest isCommon
  exact ⟨Pets.wellFormed, answer, isCommon, (others .empty .empty).2 bounded⟩

end ClassWeave
