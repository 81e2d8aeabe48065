import Mathlib.Data.Set.Card
import ClassWeave.Proofs.ClassGraph.CommonSuperclass

/-!
# What was asked before

Whatever a class graph has been asked for, and however that ended, it answers every further question
as if it had been asked for nothing: all that is in it is there with all that is above it, just as
the source has it. A class is answered with exactly if what is above it can be loaded and does not
lead back to itself.
-/

namespace ClassWeave

open Relation

namespace ClassSource

variable {source : ClassSource} {name : BinaryName}

/-- The source has the class under its own name. -/
def Names (source : ClassSource) (name : BinaryName) : Prop :=
  ∃ header, source.find name = .ok (some header) ∧ header.name = name

/-- A class can be loaded exactly if all that is above it is there and nothing of it is above
itself. -/
theorem Bounded.loads_iff (bounded : source.Bounded) : source.Loads name ↔
    ∀ sup, source.Assignable name sup → source.Names sup ∧ ¬ TransGen source.Edge sup sup := by
  constructor
  · intro loads sup path
    refine ⟨(loads.path path).header, fun cycle => ?_⟩
    obtain ⟨next, edge, back⟩ := TransGen.head'_iff.mp cycle
    exact (loads.path path).acyclic edge back
  · intro each
    -- along each edge there are fewer classes above, as the one below is not among them
    induction count : {sup | source.Assignable name sup}.ncard using Nat.strong_induction_on
      generalizing name with
    | _ count ih =>
      obtain ⟨⟨header, found, named⟩, acyclic⟩ := each name .refl
      refine .mk found named fun sup edge =>
        ih _ ?_ (fun other path => each other (.head edge path)) rfl
      have finite : {sup | source.Assignable name sup}.Finite :=
        bounded.finite_found.subset fun other path => (each other path).1.imp fun _ => And.left
      rw [← count]
      refine Set.ncard_lt_ncard ⟨fun other path => .head edge path, fun covers => ?_⟩ finite
      exact acyclic (TransGen.head' edge (covers .refl))

end ClassSource

namespace GraphM

variable {α β : Type} {source : ClassSource} {action : GraphM α} {graph later : ClassGraph}
  {inProgress names : List BinaryName} {name : BinaryName} {fault? : Option Fault}

/-! ### Loading ends -/

/-- Adding classes one after the other, each below those in progress, as far as it goes. What is
left behind is the graph, with the fault that stopped it, if any. -/
inductive Adds (source : ClassSource) : (inProgress names : List BinaryName) → ClassGraph →
    (fault? : Option Fault) → ClassGraph → Prop where
  | nil {inProgress : List BinaryName} {graph : ClassGraph} :
    Adds source inProgress [] graph none graph
  | known {inProgress rest : List BinaryName} {name : BinaryName} {graph later : ClassGraph}
    {fault? : Option Fault} {header : ClassHeader} (found : graph.find? name = some header)
    (others : Adds source inProgress rest graph fault? later) :
    Adds source inProgress (name :: rest) graph fault? later
  | cycle {inProgress rest : List BinaryName} {name : BinaryName} {graph : ClassGraph}
    (missing : graph.find? name = none) (waits : name ∈ inProgress) :
    Adds source inProgress (name :: rest) graph (some (.hierarchyCycle name)) graph
  | unloaded {inProgress rest : List BinaryName} {name : BinaryName} {graph : ClassGraph}
    {fault : Fault} (missing : graph.find? name = none) (isNew : name ∉ inProgress)
    (fails : load source name graph = (.error fault, graph)) :
    Adds source inProgress (name :: rest) graph (some fault) graph
  | blocked {inProgress rest : List BinaryName} {name : BinaryName} {graph later : ClassGraph}
    {fault : Fault} {header : ClassHeader} (missing : graph.find? name = none)
    (isNew : name ∉ inProgress) (loads : load source name graph = (.ok header, graph))
    (above : Adds source (name :: inProgress) (ClassGraph.supertypes true header) graph (some fault)
      later) :
    Adds source inProgress (name :: rest) graph (some fault) later
  | added {inProgress rest : List BinaryName} {name : BinaryName} {graph middle later : ClassGraph}
    {fault? : Option Fault} {header : ClassHeader} (missing : graph.find? name = none)
    (isNew : name ∉ inProgress) (loads : load source name graph = (.ok header, graph))
    (above : Adds source (name :: inProgress) (ClassGraph.supertypes true header) graph none middle)
    (others : Adds source inProgress rest (middle.insert header) fault? later) :
    Adds source inProgress (name :: rest) graph fault? later

theorem Adds.cons_ok {rest : List BinaryName} {middle : ClassGraph}
    (first : Adds source inProgress [name] graph none middle)
    (others : Adds source inProgress rest middle fault? later) :
    Adds source inProgress (name :: rest) graph fault? later := by
  cases first with
  | known found nothing => cases nothing; exact .known found others
  | added missing isNew loads above nothing =>
    cases nothing
    exact .added missing isNew loads above others

theorem Adds.cons_error {rest : List BinaryName} {fault : Fault}
    (first : Adds source inProgress [name] graph (some fault) later) :
    Adds source inProgress (name :: rest) graph (some fault) later := by
  cases first with
  | known found nothing => cases nothing
  | cycle missing waits => exact .cycle missing waits
  | unloaded missing isNew fails => exact .unloaded missing isNew fails
  | blocked missing isNew loads above => exact .blocked missing isNew loads above
  | added _ _ _ _ nothing => cases nothing

/-- What stopped a query, if anything. -/
def stoppedBy : Except Fault α → Option Fault
  | .ok _ => none
  | .error fault => some fault

/-- Loading neither looks into the graph nor changes it. -/
theorem load_apply (source : ClassSource) (name : BinaryName) :
    ∃ outcome : Except Fault ClassHeader, (∀ graph, load source name graph = (outcome, graph)) ∧
      ∀ header, outcome = .ok header → source.find name = .ok (some header) := by
  have asked (graph : ClassGraph) : load source name graph = _ := Outcome.bind_apply _ _ graph
  rcases found : source.find name with fault | _ | header <;> simp only [found] at asked
  · exact ⟨.error fault, asked, fun _ same => by cases same⟩
  · exact ⟨.error (.missingClass name), asked, fun _ same => by cases same⟩
  · by_cases named : header.name = name
    · exact ⟨.ok header, fun _ => load_found found named, fun _ same => by cases same; rfl⟩
    · refine ⟨.error (.malformed (.wrongClassLoaded name header.name)), fun graph => ?_,
        fun _ same => by cases same⟩
      refine (asked graph).trans ?_
      change (if header.name = name then pure header else _ : GraphM ClassHeader) graph = _
      rw [if_neg named]
      rfl

theorem bind_pure_unit_apply (action : GraphM α) (graph : ClassGraph) :
    stoppedBy ((do let _ ← action : GraphM Unit) graph).1 = stoppedBy (action graph).1 ∧
      ((do let _ ← action : GraphM Unit) graph).2 = (action graph).2 := by
  rw [Outcome.bind_apply]
  rcases action graph with ⟨fault | value, later⟩ <;> exact ⟨rfl, rfl⟩

theorem forM_adds {action : BinaryName → GraphM Unit}
    (each : ∀ name graph,
      Adds source inProgress [name] graph (stoppedBy (action name graph).1) (action name graph).2)
    (names : List BinaryName) (graph : ClassGraph) :
    Adds source inProgress names graph (stoppedBy (names.forM action graph).1)
      (names.forM action graph).2 := by
  induction names generalizing graph with
  | nil => exact .nil
  | cons name rest ih =>
    have first := each name graph
    rw [List.forM_eq_forM, List.forM_cons, Outcome.bind_apply, ← List.forM_eq_forM]
    rcases outcome : action name graph with ⟨fault | _, middle⟩ <;> rw [outcome] at first
    · exact first.cons_error
    · exact first.cons_ok (ih middle)

/-- A class is added after what is above it, which waits for nothing else. -/
theorem add_adds {above : BinaryName → GraphM Unit} (missing : graph.find? name = none)
    (isNew : name ∉ inProgress)
    (each : (∃ header, source.find name = .ok (some header)) → ∀ sup graph,
      Adds source (name :: inProgress) [sup] graph (stoppedBy (above sup graph).1)
        (above sup graph).2) :
    Adds source inProgress [name] graph (stoppedBy (add source above name graph).1)
      (add source above name graph).2 := by
  obtain ⟨outcome, applied, found⟩ := load_apply source name
  rw [add, Outcome.bind_apply, applied]
  rcases outcome with fault | header
  · exact .unloaded missing isNew (applied graph)
  · have adds := forM_adds (each ⟨header, found header rfl⟩)
      (ClassGraph.supertypes true header) graph
    rw [ClassGraph.supertypes, if_pos rfl, List.forM_eq_forM, List.forM_append, Outcome.bind_apply] at adds
    simp only [Outcome.bind_apply, List.forM_eq_forM] at adds ⊢
    rcases first : forM header.superclass.toList above graph with ⟨fault | _, middle⟩ <;>
      rw [first] at adds
    · exact .blocked missing isNew (applied graph) adds
    simp only at adds ⊢
    rcases second : forM header.interfaces above middle with ⟨fault | _, last⟩ <;>
      rw [second] at adds
    · exact .blocked missing isNew (applied graph) adds
    · exact .added missing isNew (applied graph) adds .nil

/-- With steps enough for all classes there are, the search below those in progress comes to its
end. -/
theorem resolveBelow_adds (bounded : source.Bounded) {fuel : Nat} (different : inProgress.Nodup)
    (known : ∀ sub ∈ inProgress, ∃ header, source.find sub = .ok (some header))
    (room : source.bound < fuel + inProgress.length) (name : BinaryName) (graph : ClassGraph) :
    Adds source inProgress [name] graph
      (stoppedBy (resolveBelow source fuel inProgress name graph).1)
      (resolveBelow source fuel inProgress name graph).2 := by
  induction fuel generalizing inProgress name graph with
  | zero =>
    have := bounded inProgress different known
    omega
  | succ fuel ih =>
    rw [resolveBelow_succ]
    cases missing : graph.find? name with
    | some header => exact .known missing .nil
    | none =>
      simp only
      split
      · rename_i waits
        exact .cycle missing (by simpa using waits)
      · rename_i isNew
        have isNew : name ∉ inProgress := by simpa using isNew
        refine add_adds missing isNew fun found sup graph => ?_
        rw [(bind_pure_unit_apply _ graph).1, (bind_pure_unit_apply _ graph).2]
        refine ih (List.nodup_cons.mpr ⟨isNew, different⟩) (List.forall_mem_cons.mpr ⟨found, known⟩)
          ?_ sup graph
        rw [List.length_cons]
        omega

theorem resolve_adds (bounded : source.Bounded) (name : BinaryName) (graph : ClassGraph) :
    Adds source [] [name] graph (stoppedBy (resolve source name graph).1)
      (resolve source name graph).2 :=
  resolveBelow_adds bounded .nil (by simp) (by simp) name graph

/-! ### Answers that are alike -/

variable {pre : ClassGraph → Prop} {post : α → ClassGraph → Prop}

/-- On all graphs with a property, an action ends the same way. -/
def Alike (source : ClassSource) (pre : ClassGraph → Prop) (action : GraphM α) : Prop :=
  ∀ one other : ClassGraph, one.Faithful source → other.Faithful source → pre one → pre other →
    (action one).1 = (action other).1

theorem alike_apply {outcome : Except Fault α} (same : ∀ graph, (action graph).1 = outcome) :
    Alike source pre action :=
  fun one other _ _ _ _ => (same one).trans (same other).symm

theorem Alike.bind {next : α → GraphM β} (first : Alike source pre action)
    (keeps : Keeps source pre action post)
    (later : ∀ value, Alike source (post value) (next value)) :
    Alike source pre (action >>= next) := by
  intro one other faithful otherFaithful holds otherHolds
  have same := first one other faithful otherFaithful holds otherHolds
  obtain ⟨stays, -, answers⟩ := keeps one faithful holds
  obtain ⟨otherStays, -, otherAnswers⟩ := keeps other otherFaithful otherHolds
  rw [Outcome.bind_apply, Outcome.bind_apply]
  rcases reaches : action one with ⟨outcome, reached⟩
  rcases otherReaches : action other with ⟨otherOutcome, otherReached⟩
  rw [reaches] at same stays answers
  rw [otherReaches] at same otherStays otherAnswers
  cases same
  rcases outcome with fault | value
  · rfl
  · exact later value reached otherReached stays otherStays (answers value rfl)
      (otherAnswers value rfl)

theorem Alike.weaken {stronger : ClassGraph → Prop} (alike : Alike source pre action)
    (before : ∀ graph, stronger graph → pre graph) : Alike source stronger action :=
  fun one other faithful otherFaithful holds otherHolds =>
    alike one other faithful otherFaithful (before one holds) (before other otherHolds)

/-- What does not depend on the graph can be assumed. -/
theorem Alike.given {fact : Prop} (alike : fact → Alike source pre action) :
    Alike source (fun graph => fact ∧ pre graph) action :=
  fun one other faithful otherFaithful holds otherHolds =>
    alike holds.1 one other faithful otherFaithful holds.2 otherHolds.2

theorem alike_forM {action : BinaryName → GraphM Unit}
    (keeps : ∀ name, Keeps source (fun _ => True) (action name) fun _ graph => graph.Knows name)
    {names : List BinaryName} (each : ∀ name ∈ names, Alike source (fun _ => True) (action name)) :
    Alike source (fun _ => True) (names.forM action) := by
  induction names with
  | nil => exact alike_apply fun _ => rfl
  | cons name rest ih =>
    obtain ⟨first, others⟩ := List.forall_mem_cons.mp each
    exact first.bind (keeps name) fun _ => (ih others).weaken fun _ _ => trivial

theorem add_alike {above : BinaryName → GraphM Unit} {name : BinaryName}
    (keeps : ∀ sup, Keeps source (fun _ => True) (above sup) fun _ graph => graph.Knows sup)
    (each : ∀ sup, source.Edge name sup → Alike source (fun _ => True) (above sup)) :
    Alike source (fun _ => True) (add source above name) := by
  obtain ⟨outcome, applied, -⟩ := load_apply source name
  refine (alike_apply fun graph => by rw [applied]).bind (load_keeps name)
    fun header => Alike.given fun ⟨found, _⟩ => ?_
  have superclass : Alike source (fun _ => True) (header.superclass.toList.forM above) :=
    alike_forM keeps fun sup listed =>
      each sup ⟨header, found, .inl (Option.mem_toList.mp listed)⟩
  have interfaces : Alike source (fun _ => True) (header.interfaces.forM above) :=
    alike_forM keeps fun sup listed => each sup ⟨header, found, .inr listed⟩
  refine superclass.bind (keeps_forM keeps _) fun _ => Alike.weaken ?_ fun _ _ => trivial
  exact interfaces.bind (keeps_forM keeps _) fun _ => alike_apply fun _ => rfl

/-- A class that can be loaded is answered with as the source has it. -/
theorem resolveBelow_found (bounded : source.Bounded) {fuel : Nat} {header : ClassHeader}
    (loads : source.Loads name) (different : inProgress.Nodup)
    (below : ∀ sub ∈ inProgress, (∃ header, source.find sub = .ok (some header)) ∧
      TransGen source.Edge sub name)
    (room : source.bound < fuel + inProgress.length) (faithful : graph.Faithful source)
    (found : source.find name = .ok (some header)) :
    (resolveBelow source fuel inProgress name graph).1 = .ok header := by
  obtain ⟨answer, answers⟩ :=
    resolveBelow_answers bounded loads different below room graph faithful
  obtain ⟨stays, -, inGraph⟩ := resolveBelow_keeps fuel inProgress name graph faithful trivial
  have same := (stays.found (inGraph answer answers)).1
  rw [found] at same
  cases same
  exact answers

theorem resolveBelow_alike (bounded : source.Bounded) {fuel : Nat} (different : inProgress.Nodup)
    (below : ∀ sub ∈ inProgress, (∃ header, source.find sub = .ok (some header)) ∧
      TransGen source.Edge sub name)
    (room : source.bound < fuel + inProgress.length) :
    Alike source (fun _ => True) (resolveBelow source fuel inProgress name) := by
  induction fuel generalizing inProgress name with
  | zero => exact alike_apply fun _ => rfl
  | succ fuel ih =>
    intro one other faithful otherFaithful _ _
    by_cases loads : source.Loads name
    · obtain ⟨header, found, -⟩ := loads.header
      rw [resolveBelow_found bounded loads different below room faithful found,
        resolveBelow_found bounded loads different below room otherFaithful found]
    -- what cannot be loaded is in neither graph, so both go on to its supertypes
    have missing {graph : ClassGraph} (faithful : graph.Faithful source) :
        graph.find? name = none := by
      cases found : graph.find? name with
      | none => rfl
      | some header => exact (loads (faithful.found found).2).elim
    rw [resolveBelow_succ, resolveBelow_succ, missing faithful, missing otherFaithful]
    simp only
    split
    · rfl
    rename_i isNew
    have isNew : name ∉ inProgress := by simpa using isNew
    refine add_alike (fun sup => (resolveBelow_keeps _ _ sup).bind fun header =>
      keeps_pure.weaken (fun _ found => ⟨header, found⟩) fun _ _ => id) (fun sup edge => ?_)
      one other faithful otherFaithful trivial trivial
    refine (ih (List.nodup_cons.mpr ⟨isNew, different⟩) ?_ ?_).bind (resolveBelow_keeps _ _ sup)
      fun _ => alike_apply fun _ => rfl
    · rintro sub (_ | ⟨_, member⟩)
      · exact ⟨edge.imp fun _ => And.left, .single edge⟩
      · exact ⟨(below sub member).1, (below sub member).2.tail edge⟩
    · rw [List.length_cons]
      omega

theorem resolve_alike (bounded : source.Bounded) (name : BinaryName) :
    Alike source (fun _ => True) (resolve source name) :=
  resolveBelow_alike bounded .nil (by simp) (by simp)

end GraphM

namespace ClassGraph

variable {source : ClassSource} {one other : ClassGraph} {a b header : ClassHeader}
  (faithful : one.Faithful source) (otherFaithful : other.Faithful source)

include faithful otherFaithful

theorem isAssignable_alike (has : one.Has a) (otherHas : other.Has a) (target : ClassHeader) :
    one.isAssignable a target = other.isAssignable a target := by
  rw [Bool.eq_iff_iff, isAssignable_iff faithful.closed has,
    isAssignable_iff otherFaithful.closed otherHas]
  cases target.isInterface with
  | true =>
    rw [faithful.path_iff faithful.edge_iff ⟨a, has⟩,
      otherFaithful.path_iff otherFaithful.edge_iff ⟨a, otherHas⟩]
  | false =>
    rw [faithful.path_iff faithful.superclass_iff ⟨a, has⟩,
      otherFaithful.path_iff otherFaithful.superclass_iff ⟨a, otherHas⟩]

theorem find?_alike {name : BinaryName} (knows : one.Knows name) (otherKnows : other.Knows name) :
    one.find? name = other.find? name := by
  obtain ⟨header, found⟩ := knows
  exact found.trans ((otherFaithful.found_iff otherKnows).mp (faithful.found found).1).symm

omit otherFaithful in
/-- There are steps enough for one more superclass, as it has fewer classes above it. -/
private theorem ancestorsFrom_above {fuel : Nat} {sup : BinaryName} (has : one.Has header)
    (isSuper : header.superclass = some sup)
    (room : (one.lineage source header.name).card ≤ fuel + 1) :
    ∃ above less, one.find? sup = some above ∧ one.Has above ∧ less < fuel ∧
      (one.lineage source above.name).card ≤ less + 1 ∧
      one.ancestorsFrom fuel header = above :: one.ancestorsFrom less above := by
  obtain ⟨above, found⟩ := faithful.closed has sup (mem_supertypes.mpr (.inl isSuper))
  obtain ⟨rfl, hasAbove⟩ := faithful.has found
  have fewer := faithful.card_lineage_lt ⟨header, has⟩ ⟨header, (faithful.found has).1, isSuper⟩
  have itself : 0 < (one.lineage source above.name).card :=
    Finset.card_pos.mpr ⟨_, mem_lineage.mpr ⟨⟨above, hasAbove⟩, .refl⟩⟩
  cases fuel with
  | zero => omega
  | succ less =>
    refine ⟨above, less, found, hasAbove, Nat.lt_succ_self less, by omega, ?_⟩
    rw [ancestorsFrom, isSuper, Option.bind_some, found]

omit faithful otherFaithful in
private theorem ancestorsFrom_none {fuel : Nat} (isLast : header.superclass = none) :
    one.ancestorsFrom fuel header = [] := by
  cases fuel with
  | zero => rfl
  | succ fuel => rw [ancestorsFrom, isLast, Option.bind_none]

theorem ancestorsFrom_alike {fuel otherFuel : Nat} (has : one.Has header)
    (otherHas : other.Has header) (room : (one.lineage source header.name).card ≤ fuel + 1)
    (otherRoom : (other.lineage source header.name).card ≤ otherFuel + 1) :
    one.ancestorsFrom fuel header = other.ancestorsFrom otherFuel header := by
  induction fuel using Nat.strong_induction_on generalizing header otherFuel with
  | _ fuel ih =>
    cases isSuper : header.superclass with
    | none => rw [ancestorsFrom_none isSuper, ancestorsFrom_none isSuper]
    | some sup =>
      obtain ⟨above, less, found, hasAbove, isLess, fits, eq⟩ :=
        ancestorsFrom_above faithful has isSuper room
      obtain ⟨otherAbove, otherLess, otherFound, otherHasAbove, -, otherFits, otherEq⟩ :=
        ancestorsFrom_above otherFaithful otherHas isSuper otherRoom
      have same := find?_alike faithful otherFaithful ⟨above, found⟩ ⟨otherAbove, otherFound⟩
      rw [found, otherFound] at same
      cases same
      rw [eq, otherEq, ih less isLess hasAbove otherHasAbove fits otherFits]

theorem superclasses_alike (has : one.Has header) (otherHas : other.Has header) :
    one.superclasses header = other.superclasses header := by
  rw [superclasses, superclasses, ancestorsFrom_alike faithful otherFaithful has otherHas
    (Nat.le_succ_of_le card_lineage_le) (Nat.le_succ_of_le card_lineage_le)]

theorem meetingPoint_alike (hasA : one.Has a) (hasB : one.Has b) (otherHasA : other.Has a)
    (otherHasB : other.Has b) : one.meetingPoint a b = other.meetingPoint a b := by
  have fromA := isAssignable_alike faithful otherFaithful hasA otherHasA
  have fromB := isAssignable_alike faithful otherFaithful hasB otherHasB
  simp only [meetingPoint, fromA, fromB,
    superclasses_alike faithful otherFaithful hasA otherHasA]

end ClassGraph

namespace GraphM

variable {source : ClassSource}

theorem commonSuperclass_alike (bounded : source.Bounded) (a b : BinaryName) :
    Alike source (fun _ => True) (commonSuperclass source a b) := by
  have keepsB (headerA : ClassHeader) : Keeps source (fun graph => graph.find? a = some headerA)
      (resolve source b) fun headerB graph =>
        graph.find? b = some headerB ∧ graph.find? a = some headerA :=
    ((resolve_keeps b).frame fun _ _ grows found => grows found).weaken
      (fun _ found => ⟨trivial, found⟩) fun _ _ => id
  refine (resolve_alike bounded a).bind (resolve_keeps a) fun headerA => ?_
  refine ((resolve_alike bounded b).weaken fun _ _ => trivial).bind (keepsB headerA)
    fun headerB => ?_
  rintro one other faithful otherFaithful ⟨foundB, foundA⟩ ⟨otherFoundB, otherFoundA⟩
  exact congrArg Except.ok (ClassGraph.meetingPoint_alike faithful otherFaithful
    (faithful.has foundA).2 (faithful.has foundB).2 (otherFaithful.has otherFoundA).2
    (otherFaithful.has otherFoundB).2)

end GraphM

/-! ### Sequences of queries -/

/-- What a class graph can be asked for. -/
inductive GraphQuery where
  | resolve (name : BinaryName)
  | commonSuperclass (a b : BinaryName)

namespace GraphQuery

variable {source : ClassSource}

/-- The answer is a class, or the name of one. -/
def ask (source : ClassSource) : GraphQuery → GraphM (ClassHeader ⊕ BinaryName)
  | resolve name => Sum.inl <$> GraphM.resolve source name
  | commonSuperclass a b => Sum.inr <$> GraphM.commonSuperclass source a b

/-- The graph after one query after the other, whether they are answered or not. -/
def afterAll (source : ClassSource) (queries : List GraphQuery) (graph : ClassGraph) : ClassGraph :=
  queries.foldl (fun graph query => (query.ask source graph).2) graph

theorem ask_keeps (query : GraphQuery) :
    GraphM.Keeps source (fun _ => True) (query.ask source) fun _ _ => True := by
  have ends (answer : ClassHeader ⊕ BinaryName) (pre : ClassGraph → Prop) :
      GraphM.Keeps source pre (pure answer) fun _ _ => True :=
    GraphM.keeps_pure.weaken (fun _ _ => trivial) fun _ _ => id
  cases query with
  | resolve name =>
    rw [ask, map_eq_pure_bind]
    exact (GraphM.resolve_keeps name).bind fun _ => ends _ _
  | commonSuperclass a b =>
    rw [ask, map_eq_pure_bind]
    exact (GraphM.commonSuperclass_compares a b).bind fun _ => ends _ _

theorem ask_alike (bounded : source.Bounded) (query : GraphQuery) :
    GraphM.Alike source (fun _ => True) (query.ask source) := by
  cases query with
  | resolve name =>
    rw [ask, map_eq_pure_bind]
    exact (GraphM.resolve_alike bounded name).bind (GraphM.resolve_keeps name) fun _ =>
      GraphM.alike_apply fun _ => rfl
  | commonSuperclass a b =>
    rw [ask, map_eq_pure_bind]
    exact (GraphM.commonSuperclass_alike bounded a b).bind (GraphM.commonSuperclass_compares a b)
      fun _ => GraphM.alike_apply fun _ => rfl

/-- Queries only add what the source has. -/
theorem afterAll_faithful {graph : ClassGraph} (faithful : graph.Faithful source)
    (queries : List GraphQuery) :
    (afterAll source queries graph).Faithful source ∧
      (afterAll source queries graph).Extends graph := by
  induction queries generalizing graph with
  | nil => exact ⟨faithful, .refl graph⟩
  | cons query rest ih =>
    obtain ⟨stays, grows, -⟩ := ask_keeps query graph faithful trivial
    obtain ⟨staysThen, growsThen⟩ := ih stays
    exact ⟨staysThen, growsThen.trans grows⟩

end GraphQuery

/-- A graph with the class answers with it at once. -/
theorem GraphM.resolve_known {source : ClassSource} {graph : ClassGraph} {name : BinaryName}
    {header : ClassHeader} (found : graph.find? name = some header) :
    resolve source name graph = (.ok header, graph) := by
  rw [resolve, resolveBelow_succ, found]

/-- A class is answered with if it can be loaded. -/
theorem GraphM.resolve_ok_iff {source : ClassSource} (bounded : source.Bounded) {graph : ClassGraph}
    (faithful : graph.Faithful source) (name : BinaryName) :
    (∃ header, (resolve source name graph).1 = .ok header) ↔ source.Loads name := by
  constructor
  · rintro ⟨header, answer⟩
    obtain ⟨stays, -, inGraph⟩ := resolve_keeps name graph faithful trivial
    exact (stays.found (inGraph header answer)).2
  · exact fun loads => resolve_answers bounded loads graph faithful

/-- What a graph says about a class is what an empty one would have said. -/
structure ClassGraph.Resolves (graph : ClassGraph) (source : ClassSource) (name : BinaryName) :
    Prop where
  ends : GraphM.Adds source [] [name] graph
    (GraphM.stoppedBy (GraphM.resolve source name graph).1) (GraphM.resolve source name graph).2
  alike : (GraphM.resolve source name graph).1 = (GraphM.resolve source name .empty).1
  answered_iff : (∃ header, (GraphM.resolve source name graph).1 = .ok header) ↔
    ∀ sup, source.Assignable name sup → source.Names sup ∧ ¬ TransGen source.Edge sup sup
  /-- With the class there is all that is above it, as the source has it. -/
  complete {header : ClassHeader} {later : ClassGraph} :
    GraphM.resolve source name graph = (.ok header, later) →
    ∀ sup, source.Assignable name sup →
      ∃ above, source.find sup = .ok (some above) ∧ later.find? sup = some above
  /-- The class is answered with ever after, and neither it nor another one is replaced. -/
  interned {header : ClassHeader} {later : ClassGraph} :
    GraphM.resolve source name graph = (.ok header, later) → later.find? name = some header ∧
      ∀ more, (GraphQuery.afterAll source more later).Extends later ∧
        GraphM.resolve source name (GraphQuery.afterAll source more later) =
          (.ok header, GraphQuery.afterAll source more later)
  /-- A query that fails changes none of the answers that follow. -/
  unspoiled {query : GraphQuery} {fault : Fault} {later : ClassGraph} :
    query.ask source graph = (.error fault, later) → ∀ more (next : GraphQuery),
      (next.ask source (GraphQuery.afterAll source more later)).1 =
        (next.ask source (GraphQuery.afterAll source more graph)).1

theorem ClassGraph.Faithful.resolves {source : ClassSource} {graph : ClassGraph}
    (faithful : graph.Faithful source) (bounded : source.Bounded) (name : BinaryName) :
    graph.Resolves source name where
  ends := GraphM.resolve_adds bounded name graph
  alike := GraphM.resolve_alike bounded name graph .empty faithful
    ClassGraph.empty_faithful trivial trivial
  answered_iff := (GraphM.resolve_ok_iff bounded faithful name).trans bounded.loads_iff
  complete {header later} answer sup path := by
    obtain ⟨stays, -, inGraph⟩ := GraphM.resolve_keeps name graph faithful trivial
    rw [answer] at stays inGraph
    obtain ⟨above, found⟩ := stays.knows_of_path ⟨header, inGraph header rfl⟩ path
    exact ⟨above, (stays.found found).1, found⟩
  interned {header later} answer := by
    obtain ⟨stays, -, inGraph⟩ := GraphM.resolve_keeps name graph faithful trivial
    rw [answer] at stays inGraph
    refine ⟨inGraph header rfl, fun more => ?_⟩
    obtain ⟨-, grows⟩ := GraphQuery.afterAll_faithful stays more
    exact ⟨grows, GraphM.resolve_known (grows (inGraph header rfl))⟩
  unspoiled {query fault later} answer more next := by
    obtain ⟨stays, -, -⟩ := query.ask_keeps graph faithful trivial
    rw [answer] at stays
    exact next.ask_alike bounded _ _ (GraphQuery.afterAll_faithful stays more).1
      (GraphQuery.afterAll_faithful faithful more).1 trivial trivial

/-- Whatever a graph was asked for before, it answers like an empty one. -/
theorem ClassSource.Bounded.resolves_afterAll {source : ClassSource} (bounded : source.Bounded)
    (earlier : List GraphQuery) (name : BinaryName) :
    (GraphQuery.afterAll source earlier .empty).Resolves source name :=
  (GraphQuery.afterAll_faithful ClassGraph.empty_faithful earlier).1.resolves bounded name

namespace Henhouse

def chicken : BinaryName := ⟨"app/Chicken", by decide⟩
def egg : BinaryName := ⟨"app/Egg", by decide⟩
def farmer : BinaryName := ⟨"app/Farmer", by decide⟩

/-- Two classes that extend each other, and one that does not depend on them. -/
def headers : List ClassHeader :=
  [⟨.object, none, [], false⟩, ⟨chicken, some egg, [], false⟩, ⟨egg, some chicken, [], false⟩,
    ⟨farmer, some .object, [], false⟩]

def source : ClassSource := .ofHeaders headers

theorem found (header : ClassHeader) (listed : header ∈ headers) :
    source.find header.name = .ok (some header) :=
  ClassSource.ofHeaders_find_mem (by decide) listed

theorem egg_not_loads : ¬ source.Loads egg := fun loads =>
  loads.acyclic ⟨_, found ⟨egg, some chicken, [], false⟩ (by decide), .inl rfl⟩
    (.single ⟨_, found ⟨chicken, some egg, [], false⟩ (by decide), .inl rfl⟩)

theorem farmer_loads : source.Loads farmer := by
  have object : source.Loads .object :=
    ClassSource.ofHeaders_loads (found ⟨.object, none, [], false⟩ (by decide)) (by simp)
  exact ClassSource.ofHeaders_loads (found ⟨farmer, some .object, [], false⟩ (by decide))
    (List.forall_mem_singleton.mpr object)

/-- The graph after two queries that fail. -/
def stuck : ClassGraph :=
  GraphQuery.afterAll source [.resolve egg, .commonSuperclass farmer chicken] .empty

theorem farmer_resolves : source.Bounded ∧
    (∃ fault, (GraphM.resolve source egg .empty).1 = .error fault) ∧
    stuck.Resolves source farmer ∧
    ∃ header, (GraphM.resolve source farmer stuck).1 = .ok header := by
  have bounded : source.Bounded := ClassSource.ofHeaders_bounded headers
  have resolves : stuck.Resolves source farmer := bounded.resolves_afterAll _ farmer
  refine ⟨bounded, ?_, resolves,
    resolves.answered_iff.mpr (bounded.loads_iff.mp farmer_loads)⟩
  cases outcome : (GraphM.resolve source egg .empty).1 with
  | error fault => exact ⟨fault, rfl⟩
  | ok header =>
    have loads := (GraphM.resolve_ok_iff bounded ClassGraph.empty_faithful egg).mp ⟨header, outcome⟩
    exact (egg_not_loads loads).elim

end Henhouse

end ClassWeave
