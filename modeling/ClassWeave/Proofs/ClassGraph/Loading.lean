import Mathlib.Data.List.Perm.Subperm
import Mathlib.Data.Set.Finite.Basic
import ClassWeave.Proofs.ClassGraph.Search
import ClassWeave.Proofs.Outcome

/-!
# Loading classes

What a class graph holds at any time is what its source has: classes that lead to the source's
headers, all of them with their supertypes. A class can be loaded exactly if the source has it and
all that is above it, and then it is loaded whatever the graph holds already.
-/

namespace ClassWeave

namespace ClassSource

variable {source : ClassSource} {name sub sup : BinaryName}

/-- A class that the source has, and one of its direct supertypes. -/
def Edge (source : ClassSource) (sub sup : BinaryName) : Prop :=
  ∃ header, source.find sub = .ok (some header) ∧
    (header.superclass = some sup ∨ sup ∈ header.interfaces)

/-- The source has the class under its own name, and all that is above it. -/
inductive Loads (source : ClassSource) : BinaryName → Prop where
  | mk {name : BinaryName} {header : ClassHeader} (found : source.find name = .ok (some header))
      (named : header.name = name) (above : ∀ sup, source.Edge name sup → Loads source sup) :
      Loads source name

/-- No more classes can be found than the source says. -/
def Bounded (source : ClassSource) : Prop :=
  ∀ names : List BinaryName, names.Nodup →
    (∀ name ∈ names, ∃ header, source.find name = .ok (some header)) → names.length ≤ source.bound

theorem Bounded.finite_found (bounded : source.Bounded) :
    {name | ∃ header, source.find name = .ok (some header)}.Finite := by
  by_contra infinite
  obtain ⟨names, found, count⟩ := Set.Infinite.exists_subset_card_eq infinite (source.bound + 1)
  have few := bounded names.toList names.nodup_toList fun name member =>
    found (Finset.mem_toList.mp member)
  rw [Finset.length_toList, count] at few
  omega

theorem Loads.header (loads : source.Loads name) :
    ∃ header, source.find name = .ok (some header) ∧ header.name = name := by
  cases loads with
  | mk found named => exact ⟨_, found, named⟩

theorem Loads.edge (loads : source.Loads sub) (edge : source.Edge sub sup) : source.Loads sup := by
  cases loads with
  | mk _ _ above => exact above sup edge

theorem Loads.path (loads : source.Loads sub)
    (path : Relation.ReflTransGen source.Edge sub sup) : source.Loads sup := by
  induction path with
  | refl => exact loads
  | tail _ edge ih => exact ih.edge edge

/-- No class that can be loaded is above itself. -/
theorem Loads.acyclic (loads : source.Loads sub) (edge : source.Edge sub sup) :
    ¬ Relation.ReflTransGen source.Edge sup sub := by
  induction loads generalizing sup with
  | @mk sub _ _ _ _ ih =>
    intro back
    rcases Relation.ReflTransGen.cases_head back with rfl | ⟨next, first, rest⟩
    · exact ih sup edge edge .refl
    · exact ih sup edge first (rest.tail edge)

theorem empty_bounded : empty.Bounded := by
  rintro (_ | ⟨name, names⟩) _ found
  · exact Nat.le_refl _
  · obtain ⟨_, found⟩ := found name List.mem_cons_self
    cases found

theorem orElse_found {first second : ClassSource} {header : ClassHeader}
    (found : (first.orElse second).find name = .ok (some header)) :
    first.find name = .ok (some header) ∨ second.find name = .ok (some header) := by
  unfold ClassSource.orElse at found
  simp only at found
  rcases outcome : first.find name with fault | _ | other <;> rw [outcome] at found
  · cases found
  · exact .inr found
  · exact .inl found

theorem Bounded.orElse {first second : ClassSource} (bounded : first.Bounded)
    (otherBounded : second.Bounded) : (first.orElse second).Bounded := by
  classical
  intro names different found
  let inFirst := fun name : BinaryName => ∃ header, first.find name = .ok (some header)
  have ofFirst := bounded (names.filter inFirst) (different.filter _) fun name member => by
    simpa [inFirst] using (List.mem_filter.mp member).2
  have ofSecond := otherBounded (names.filter (¬ inFirst ·)) (different.filter _)
    fun name member => by
      obtain ⟨isThere, missing⟩ := List.mem_filter.mp member
      obtain ⟨header, hasIt⟩ := found name isThere
      refine ⟨header, (orElse_found hasIt).resolve_left fun inIt => ?_⟩
      exact of_decide_eq_true missing ⟨header, inIt⟩
  have both := List.length_eq_length_filter_add (l := names) (inFirst ·)
  simp only [decide_not] at ofSecond
  change names.length ≤ first.bound + second.bound
  omega

theorem ofList_bounded {sources : List ClassSource} (each : ∀ source ∈ sources, source.Bounded) :
    (ofList sources).Bounded := by
  induction sources with
  | nil => exact empty_bounded
  | cons first rest ih =>
    obtain ⟨bounded, others⟩ := List.forall_mem_cons.mp each
    exact bounded.orElse (ih others)

/-- Of two classes with one name the later one counts. -/
theorem ofHeaders_find (headers : List ClassHeader) :
    (ofHeaders headers).find name = .ok (headers.reverse.find? (·.name = name)) := by
  have table (before : Std.HashMap BinaryName ClassHeader) :
      (headers.foldl (fun table header => table.insert header.name header) before)[name]? =
        (headers.reverse.find? (·.name = name)).or before[name]? := by
    induction headers generalizing before with
    | nil => rfl
    | cons header rest ih =>
      rw [List.foldl_cons, ih, List.reverse_cons, List.find?_append, Option.or_assoc,
        Std.HashMap.getElem?_insert]
      congr 1
      by_cases here : header.name = name <;> simp [here]
  simp [ofHeaders, table]

theorem ofHeaders_found {headers : List ClassHeader} {header : ClassHeader}
    (found : (ofHeaders headers).find name = .ok (some header)) :
    header ∈ headers ∧ header.name = name := by
  rw [ofHeaders_find] at found
  have isListed := Except.ok.inj found
  exact ⟨List.mem_reverse.mp (List.mem_of_find?_eq_some isListed),
    by simpa using List.find?_some isListed⟩

/-- A class that is listed is found, unless another one has its name. -/
theorem ofHeaders_find_mem {headers : List ClassHeader} {header : ClassHeader}
    (different : (headers.map ClassHeader.name).Nodup) (listed : header ∈ headers) :
    (ofHeaders headers).find header.name = .ok (some header) := by
  rw [ofHeaders_find]
  cases found : headers.reverse.find? (·.name = header.name) with
  | none =>
    have missing := List.find?_eq_none.mp found header (List.mem_reverse.mpr listed)
    simp at missing
  | some other =>
    have sameName : other.name = header.name := by simpa using List.find?_some found
    have otherListed := List.mem_reverse.mp (List.mem_of_find?_eq_some found)
    rw [List.inj_on_of_nodup_map different otherListed listed sameName]

theorem ofHeaders_bounded (headers : List ClassHeader) : (ofHeaders headers).Bounded := by
  intro names different found
  have listed : names ⊆ headers.map ClassHeader.name := by
    intro name member
    obtain ⟨header, isThere⟩ := found name member
    obtain ⟨isListed, rfl⟩ := ofHeaders_found isThere
    exact List.mem_map_of_mem isListed
  exact (different.subperm listed).length_le.trans_eq (List.length_map _)

end ClassSource

namespace ClassGraph

variable {source : ClassSource} {graph newer older : ClassGraph} {name : BinaryName}
  {header : ClassHeader}

/-- What the graph holds is what the source has, and the supertypes are there as well. -/
structure Faithful (graph : ClassGraph) (source : ClassSource) : Prop where
  found {name : BinaryName} {header : ClassHeader} : graph.find? name = some header →
    source.find name = .ok (some header) ∧ source.Loads name
  closed : graph.Closed

/-- The newer graph holds all that the older one does. -/
def Extends (newer older : ClassGraph) : Prop :=
  ∀ ⦃name header⦄, older.find? name = some header → newer.find? name = some header

theorem Extends.refl (graph : ClassGraph) : graph.Extends graph := fun _ _ found => found

theorem Extends.trans {newest : ClassGraph} (second : newest.Extends newer)
    (first : newer.Extends older) : newest.Extends older := fun _ _ found => second (first found)

theorem Knows.grows (knows : older.Knows name) (grows : newer.Extends older) : newer.Knows name :=
  knows.imp fun _ found => grows found

theorem empty_faithful : empty.Faithful source := by
  have nothing {name : BinaryName} : empty.find? name = none := by simp [empty, find?]
  exact ⟨fun found => by simp [nothing] at found, fun _ _ found => by simp [nothing] at found⟩

theorem find?_insert : (graph.insert header).find? name =
    if header.name = name then some header else graph.find? name := by
  simp [insert, find?, Std.HashMap.getElem?_insert]

/-- A class is added when its supertypes are there. -/
theorem Faithful.insert (faithful : graph.Faithful source)
    (found : source.find header.name = .ok (some header))
    (above : ∀ sup ∈ supertypes true header, graph.Knows sup) :
    (graph.insert header).Faithful source ∧ (graph.insert header).Extends graph := by
  have grows : (graph.insert header).Extends graph := by
    intro name other isThere
    rw [find?_insert]
    split
    · rename_i here
      have same := (faithful.found isThere).1
      rw [← here, found] at same
      cases same
      rfl
    · exact isThere
  refine ⟨⟨fun {name other} isThere => ?_, fun name other isThere sup listed => ?_⟩, grows⟩
  · rw [find?_insert] at isThere
    split at isThere
    · rename_i here
      cases isThere
      refine ⟨here ▸ found, here ▸ .mk found rfl ?_⟩
      rintro sup ⟨other, otherFound, listed⟩
      cases found.symm.trans otherFound
      obtain ⟨_, supFound⟩ := above sup (mem_supertypes.mpr (listed.imp_right fun member => ⟨rfl, member⟩))
      exact (faithful.found supFound).2
    · exact faithful.found isThere
  · rw [find?_insert] at isThere
    split at isThere
    · cases isThere
      exact (above sup listed).grows grows
    · exact (faithful.closed isThere sup listed).grows grows

end ClassGraph

namespace GraphM

variable {α β : Type} {source : ClassSource} {pre : ClassGraph → Prop}
  {post : α → ClassGraph → Prop}

/-- On graphs with a property, an action only adds what the source has, also if it fails, and what it
answers with holds. -/
def Keeps (source : ClassSource) (pre : ClassGraph → Prop) (action : GraphM α)
    (post : α → ClassGraph → Prop) : Prop :=
  ∀ graph : ClassGraph, graph.Faithful source → pre graph →
    (action graph).2.Faithful source ∧ (action graph).2.Extends graph ∧
      ∀ value, (action graph).1 = .ok value → post value (action graph).2

theorem keeps_pure {value : α} : Keeps source (post value) (pure value) post := by
  intro graph faithful holds
  refine ⟨faithful, .refl graph, fun result same => ?_⟩
  cases same
  exact holds

theorem keeps_throw {fault : Fault} : Keeps source pre (throw fault) post :=
  fun graph faithful _ => ⟨faithful, .refl graph, fun _ same => by cases same⟩

theorem keeps_lift {outcome : Except Fault α}
    (ends : ∀ graph, pre graph → ∀ value, outcome = .ok value → post value graph) :
    Keeps source pre (liftM outcome) post := by
  intro graph faithful holds
  cases outcome with
  | error fault => exact ⟨faithful, .refl graph, fun _ same => by cases same⟩
  | ok value =>
    refine ⟨faithful, .refl graph, fun result same => ?_⟩
    cases same
    exact ends graph holds value rfl

theorem Keeps.bind {action : GraphM α} {next : α → GraphM β} {middle : α → ClassGraph → Prop}
    {last : β → ClassGraph → Prop} (first : Keeps source pre action middle)
    (later : ∀ value, Keeps source (middle value) (next value) last) :
    Keeps source pre (action >>= next) last := by
  intro graph faithful holds
  obtain ⟨stays, grows, answers⟩ := first graph faithful holds
  rw [Outcome.bind_apply]
  rcases outcome : action graph with ⟨fault | value, reached⟩ <;> rw [outcome] at stays grows answers
  · exact ⟨stays, grows, fun _ same => by cases same⟩
  · obtain ⟨staysThen, growsThen, answersThen⟩ := later value reached stays (answers value rfl)
    exact ⟨staysThen, growsThen.trans grows, answersThen⟩

/-- What is true of a graph stays true if it is true of all larger ones. -/
theorem Keeps.frame {action : GraphM α} {kept : ClassGraph → Prop}
    (stable : ∀ ⦃newer older : ClassGraph⦄, newer.Extends older → kept older → kept newer)
    (keeps : Keeps source pre action post) :
    Keeps source (fun graph => pre graph ∧ kept graph) action
      fun value graph => post value graph ∧ kept graph := by
  rintro graph faithful ⟨holds, isKept⟩
  obtain ⟨stays, grows, answers⟩ := keeps graph faithful holds
  exact ⟨stays, grows, fun value same => ⟨answers value same, stable grows isKept⟩⟩

theorem Keeps.weaken {action : GraphM α} {stronger : ClassGraph → Prop}
    {weaker : α → ClassGraph → Prop} (keeps : Keeps source pre action post)
    (before : ∀ graph, stronger graph → pre graph)
    (after : ∀ value graph, post value graph → weaker value graph) :
    Keeps source stronger action weaker := by
  intro graph faithful holds
  obtain ⟨stays, grows, answers⟩ := keeps graph faithful (before graph holds)
  exact ⟨stays, grows, fun value same => after value _ (answers value same)⟩

/-- What does not depend on the graph can be assumed. -/
theorem Keeps.given {action : GraphM α} {fact : Prop}
    (keeps : fact → Keeps source pre action post) :
    Keeps source (fun graph => fact ∧ pre graph) action post :=
  fun graph faithful holds => keeps holds.1 graph faithful holds.2

theorem keeps_forM {action : BinaryName → GraphM Unit}
    (each : ∀ name, Keeps source (fun _ => True) (action name) fun _ graph => graph.Knows name)
    (names : List BinaryName) : Keeps source (fun _ => True) (names.forM action)
      fun _ graph => ∀ name ∈ names, graph.Knows name := by
  induction names with
  | nil =>
    intro graph faithful _
    exact ⟨faithful, .refl graph, fun _ _ name member => by cases member⟩
  | cons name rest ih =>
    have stable ⦃newer older : ClassGraph⦄ (grows : newer.Extends older)
        (knows : older.Knows name) : newer.Knows name := knows.grows grows
    refine (each name).bind fun _ => (ih.frame stable).weaken (fun _ known => ⟨trivial, known⟩) ?_
    rintro _ graph ⟨others, known⟩
    exact List.forall_mem_cons.mpr ⟨known, others⟩

theorem load_keeps (name : BinaryName) : Keeps source pre (load source name) fun header graph =>
    (source.find name = .ok (some header) ∧ header.name = name) ∧ pre graph := by
  have asked : Keeps source pre (liftM (source.find name)) fun found graph =>
      source.find name = .ok found ∧ pre graph :=
    keeps_lift fun graph holds found same => ⟨same, holds⟩
  refine asked.bind fun found => ?_
  cases found with
  | none => exact keeps_throw
  | some header =>
    simp only
    split
    · rename_i named
      exact keeps_pure.weaken (fun _ holds => ⟨⟨holds.1, named⟩, holds.2⟩) fun _ _ => id
    · exact keeps_throw

/-- Loads a class, and adds it after its supertypes. -/
def add (source : ClassSource) (above : BinaryName → GraphM Unit) (name : BinaryName) :
    GraphM ClassHeader := do
  let header ← load source name
  header.superclass.toList.forM above
  header.interfaces.forM above
  modify (·.insert header)
  return header

theorem resolveBelow_succ (fuel : Nat) (inProgress : List BinaryName) (name : BinaryName)
    (graph : ClassGraph) : resolveBelow source (fuel + 1) inProgress name graph =
      match graph.find? name with
      | some header => (.ok header, graph)
      | none =>
        if inProgress.contains name then (.error (.hierarchyCycle name), graph)
        else add source (fun sup => do
          let _ ← resolveBelow source fuel (name :: inProgress) sup) name graph := by
  have listed (superclass : Option BinaryName) (action : BinaryName → GraphM Unit) :
      superclass.forM action = superclass.toList.forM action := by
    cases superclass with
    | none => rfl
    | some superclass => exact (bind_pure_unit (x := action superclass)).symm
  rw [resolveBelow, Outcome.bind_apply]
  change (match graph.find? name with | some header => _ | none => _ : GraphM ClassHeader) graph = _
  cases graph.find? name with
  | some header => rfl
  | none =>
    simp only [listed]
    cases inProgress.contains name <;> rfl

theorem add_keeps {above : BinaryName → GraphM Unit} {name : BinaryName}
    (each : ∀ sup, Keeps source (fun _ => True) (above sup) fun _ graph => graph.Knows sup) :
    Keeps source (fun _ => True) (add source above name)
      fun header graph => graph.find? name = some header := by
  have eachOf := keeps_forM each
  refine (load_keeps name).bind fun header => Keeps.given fun ⟨found, named⟩ => ?_
  refine (eachOf header.superclass.toList).bind fun _ => ?_
  refine (((eachOf header.interfaces).frame fun _ _ grows known sup member =>
    (known sup member).grows grows).weaken (fun _ known => ⟨trivial, known⟩) fun _ _ => id).bind
      fun _ => ?_
  rintro graph faithful ⟨interfaces, superclass⟩
  have above : ∀ sup ∈ ClassGraph.supertypes true header, graph.Knows sup :=
    List.forall_mem_append.mpr ⟨superclass, interfaces⟩
  obtain ⟨stays, grows⟩ := faithful.insert (named ▸ found) above
  refine ⟨stays, grows, fun _ same => ?_⟩
  cases same
  exact ClassGraph.find?_insert.trans (if_pos named)

/-- A class that is answered with is in the graph from then on. -/
theorem resolveBelow_keeps (fuel : Nat) (inProgress : List BinaryName) (name : BinaryName) :
    Keeps source (fun _ => True) (resolveBelow source fuel inProgress name)
      fun header graph => graph.find? name = some header := by
  induction fuel generalizing inProgress name with
  | zero => exact keeps_throw
  | succ fuel ih =>
    intro graph faithful _
    rw [resolveBelow_succ]
    split
    · rename_i header found
      exact ⟨faithful, .refl graph, fun _ same => by cases same; exact found⟩
    split
    · exact ⟨faithful, .refl graph, fun _ same => by cases same⟩
    · refine add_keeps (fun sup => (ih _ sup).bind fun header => ?_) graph faithful trivial
      exact keeps_pure.weaken (fun _ found => ⟨header, found⟩) fun _ _ => id

/-- On every graph with classes of the source, an action ends with an answer. -/
def Answers (source : ClassSource) (action : GraphM α) : Prop :=
  ∀ graph : ClassGraph, graph.Faithful source → ∃ value, (action graph).1 = .ok value

theorem Answers.bind {action : GraphM α} {next : α → GraphM β} (first : Answers source action)
    (keeps : Keeps source (fun _ => True) action post)
    (later : ∀ value, Answers source (next value)) : Answers source (action >>= next) := by
  intro graph faithful
  obtain ⟨value, answer⟩ := first graph faithful
  obtain ⟨stays, -, -⟩ := keeps graph faithful trivial
  rw [Outcome.bind_apply]
  rcases outcome : action graph with ⟨fault | value, reached⟩ <;> rw [outcome] at answer stays
  · cases answer
  · exact later value reached stays

theorem answers_pure {value : α} : Answers source (pure value) := fun _ _ => ⟨value, rfl⟩

theorem answers_forM {action : BinaryName → GraphM Unit}
    (keeps : ∀ name, Keeps source (fun _ => True) (action name) fun _ graph => graph.Knows name)
    {names : List BinaryName} (each : ∀ name ∈ names, Answers source (action name)) :
    Answers source (names.forM action) := by
  induction names with
  | nil => exact answers_pure
  | cons name rest ih =>
    obtain ⟨first, others⟩ := List.forall_mem_cons.mp each
    exact first.bind (keeps name) fun _ => ih others

theorem load_found {name : BinaryName} {header : ClassHeader} {graph : ClassGraph}
    (found : source.find name = .ok (some header)) (named : header.name = name) :
    load source name graph = (.ok header, graph) := by
  rw [load, found, Outcome.bind_apply]
  change (if header.name = name then pure header else _ : GraphM ClassHeader) graph = _
  rw [if_pos named]
  rfl

theorem add_answers {above : BinaryName → GraphM Unit} {name : BinaryName}
    (loads : source.Loads name)
    (keeps : ∀ sup, Keeps source (fun _ => True) (above sup) fun _ graph => graph.Knows sup)
    (each : ∀ sup, source.Edge name sup → Answers source (above sup)) :
    Answers source (add source above name) := by
  intro graph faithful
  obtain ⟨header, found, named⟩ := loads.header
  rw [add, Outcome.bind_apply, load_found found named]
  refine Answers.bind (answers_forM keeps fun sup listed => each sup ⟨header, found, ?_⟩)
    (keeps_forM keeps _) (fun _ => Answers.bind
      (answers_forM keeps fun sup listed => each sup ⟨header, found, .inr listed⟩)
      (keeps_forM keeps _) fun _ => ?_) graph faithful
  · exact .inl (Option.mem_toList.mp listed)
  · exact fun _ _ => ⟨header, rfl⟩

/-- A class that can be loaded is loaded below classes that are all different, as there cannot be
more of them than the source has. -/
theorem resolveBelow_answers (bounded : source.Bounded) {fuel : Nat} {inProgress : List BinaryName}
    {name : BinaryName} (loads : source.Loads name) (different : inProgress.Nodup)
    (below : ∀ sub ∈ inProgress, (∃ header, source.find sub = .ok (some header)) ∧
      Relation.TransGen source.Edge sub name)
    (room : source.bound < fuel + inProgress.length) :
    Answers source (resolveBelow source fuel inProgress name) := by
  induction fuel generalizing inProgress name with
  | zero =>
    have := bounded inProgress different fun sub member => (below sub member).1
    omega
  | succ fuel ih =>
    have isNew : name ∉ inProgress := by
      intro member
      obtain ⟨sup, edge, back⟩ := Relation.TransGen.head'_iff.mp (below name member).2
      exact loads.acyclic edge back
    intro graph faithful
    rw [resolveBelow_succ]
    split
    · exact ⟨_, rfl⟩
    rw [if_neg (by simpa using isNew)]
    refine add_answers loads (fun sup => (resolveBelow_keeps _ _ sup).bind fun header =>
      keeps_pure.weaken (fun _ found => ⟨header, found⟩) fun _ _ => id) (fun sup edge => ?_) graph
      faithful
    refine (ih (loads.edge edge) (List.nodup_cons.mpr ⟨isNew, different⟩) ?_ ?_).bind
      (resolveBelow_keeps _ _ sup) fun _ => answers_pure
    · rintro sub (_ | ⟨_, member⟩)
      · obtain ⟨header, found, -⟩ := loads.header
        exact ⟨⟨header, found⟩, .single edge⟩
      · exact ⟨(below sub member).1, (below sub member).2.tail edge⟩
    · rw [List.length_cons]
      omega

theorem resolve_keeps (name : BinaryName) : Keeps source (fun _ => True) (resolve source name)
    fun header graph => graph.find? name = some header :=
  resolveBelow_keeps _ _ name

/-- Whatever has been loaded, a class that can be loaded is. -/
theorem resolve_answers (bounded : source.Bounded) {name : BinaryName}
    (loads : source.Loads name) : Answers source (resolve source name) :=
  resolveBelow_answers bounded loads .nil (by simp) (by simp)

end GraphM

/-- Graphs as they come about: classes are asked for one after the other. -/
inductive ClassGraph.LoadedFrom (source : ClassSource) : ClassGraph → Prop where
  | empty : LoadedFrom source .empty
  | resolve {graph : ClassGraph} (loaded : LoadedFrom source graph) (name : BinaryName) :
      LoadedFrom source (GraphM.resolve source name graph).2

theorem ClassGraph.LoadedFrom.faithful {source : ClassSource} {graph : ClassGraph}
    (loaded : graph.LoadedFrom source) : graph.Faithful source := by
  induction loaded with
  | empty => exact ClassGraph.empty_faithful
  | resolve _ name ih => exact (GraphM.resolve_keeps name _ ih trivial).1

end ClassWeave
