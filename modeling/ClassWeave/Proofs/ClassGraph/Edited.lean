import ClassWeave.ClassGraph.Edited
import ClassWeave.Proofs.ClassGraph.CommonSuperclass
import ClassWeave.Proofs.Outcome

/-!
# Around an edited class

What is answered about an edited class is what the hierarchy around it says of its superclass, so
each answer is above both classes. It is the upper one of two classes, one of which is below the
other, unless that is the edited class itself.
-/

namespace ClassWeave

open Relation

namespace ClassGraph

variable {source : ClassSource} {graph : ClassGraph} {a b : ClassHeader}

namespace Faithful

variable (faithful : graph.Faithful source)

include faithful

/-- A class that superclasses lead to is found, whether it takes interfaces or not. -/
theorem isAssignable_of_subclass (has : graph.Has a)
    (below : source.Subclass a.name b.name) : graph.isAssignable a b = true := by
  rw [ClassGraph.isAssignable_iff faithful.closed has]
  exact ReflTransGen.mono (fun _ _ => Edge.ofSuperclass) _ _
    ((faithful.path_iff faithful.superclass_iff ⟨a, has⟩).mpr below)

theorem assignable_of_isAssignable (has : graph.Has a) (found : graph.isAssignable a b = true) :
    source.Assignable a.name b.name := by
  rw [ClassGraph.isAssignable_iff faithful.closed has] at found
  exact (faithful.path_iff faithful.edge_iff ⟨a, has⟩).mp
    (ReflTransGen.mono (fun _ _ => Edge.toInterface) _ _ found)

/-- Of two classes, one of which is a subclass of the other, the other is answered. -/
theorem meetingPoint_of_subclass (hasA : graph.Has a) (hasB : graph.Has b)
    (below : source.Subclass a.name b.name) :
    graph.meetingPoint a b = b.name ∧ graph.meetingPoint b a = b.name := by
  have forth := faithful.isAssignable_of_subclass hasA below
  refine ⟨?_, by rw [meetingPoint, if_pos forth]⟩
  rw [meetingPoint]
  split
  · rename_i back
    exact below.assignable.antisymm (faithful.found hasA).2
      (faithful.assignable_of_isAssignable hasB back)
  · rfl

end Faithful

end ClassGraph

namespace ClassSource

variable {source : ClassSource} {a b common : BinaryName}

/-- Every answer comes from a graph that has both classes. -/
theorem hierarchy_compares (answer : source.hierarchy.commonSuperclass a b = .ok common) :
    ∃ graph headerA headerB, ClassGraph.Faithful graph source ∧
      (headerA.name = a ∧ graph.Has headerA) ∧ (headerB.name = b ∧ graph.Has headerB) ∧
      common = graph.meetingPoint headerA headerB := by
  have faithful : ClassGraph.empty.Faithful source := ClassGraph.empty_faithful
  obtain ⟨stays, -, compares⟩ := GraphM.commonSuperclass_compares a b .empty faithful trivial
  obtain ⟨headerA, headerB, hasA, hasB, same⟩ := compares common answer
  exact ⟨_, headerA, headerB, stays, hasA, hasB, same⟩

theorem hierarchy_loads (answer : source.hierarchy.commonSuperclass a b = .ok common) :
    source.Loads a ∧ source.Loads b := by
  obtain ⟨graph, headerA, headerB, faithful, ⟨rfl, hasA⟩, ⟨rfl, hasB⟩, -⟩ :=
    hierarchy_compares answer
  exact ⟨(faithful.found hasA).2, (faithful.found hasB).2⟩

theorem hierarchy_of_subclass (below : source.Subclass a b)
    (answer : source.hierarchy.commonSuperclass a b = .ok common ∨
      source.hierarchy.commonSuperclass b a = .ok common) : common = b := by
  rcases answer with answer | answer
  · obtain ⟨graph, headerA, headerB, faithful, ⟨rfl, hasA⟩, ⟨rfl, hasB⟩, rfl⟩ :=
      hierarchy_compares answer
    exact (faithful.meetingPoint_of_subclass hasA hasB below).1
  · obtain ⟨graph, headerB, headerA, faithful, ⟨rfl, hasB⟩, ⟨rfl, hasA⟩, rfl⟩ :=
      hierarchy_compares answer
    exact (faithful.meetingPoint_of_subclass hasA hasB below).2

namespace WellFormed

variable (wf : source.WellFormed)

include wf

theorem hierarchy_isCommonSuperclass
    (answer : source.hierarchy.commonSuperclass a b = .ok common) :
    source.IsCommonSuperclass a b common := by
  obtain ⟨graph, headerA, headerB, faithful, ⟨rfl, hasA⟩, ⟨rfl, hasB⟩, rfl⟩ :=
    hierarchy_compares answer
  exact faithful.meetingPoint_isCommonSuperclass wf hasA hasB

/-- The order of two classes does not matter. If no more classes can be found than the source says,
they are compared in both orders or in none. -/
theorem hierarchy_symm (answer : source.hierarchy.commonSuperclass a b = .ok common) :
    (∀ back, source.hierarchy.commonSuperclass b a = .ok back → back = common) ∧
      (source.Bounded → source.hierarchy.commonSuperclass b a = .ok common) := by
  obtain ⟨loadsA, loadsB⟩ := hierarchy_loads answer
  have agrees (back : BinaryName)
      (backAnswer : source.hierarchy.commonSuperclass b a = .ok back) : back = common :=
    (wf.hierarchy_isCommonSuperclass backAnswer).unique loadsB
      (wf.hierarchy_isCommonSuperclass answer).symm
  refine ⟨agrees, fun bounded => ?_⟩
  obtain ⟨back, backAnswer⟩ := GraphM.commonSuperclass_answers bounded loadsB loadsA .empty
    ClassGraph.empty_faithful
  rwa [← agrees back backAnswer]

end WellFormed

end ClassSource

namespace Hierarchy

theorem isSubclass_ok {hierarchy : Hierarchy} {sub sup : BinaryName} {answer : Bool} :
    hierarchy.isSubclass sub sup = .ok answer ↔
      (sub ≠ sup ∧ sup ≠ .object ∧ ∃ common, hierarchy.commonSuperclass sup sub = .ok common ∧
        decide (common = sup) = answer) ∨
      (sub = sup ∨ sup = .object) ∧ answer = true := by
  unfold isSubclass
  split
  · rename_i settled
    have notAsked : ¬ (sub ≠ sup ∧ sup ≠ .object) := fun asked => settled.elim asked.1 asked.2
    simp only [← and_assoc, notAsked, false_and, false_or, settled, true_and]
    exact ⟨fun same => (Except.ok.inj same).symm, fun same => congrArg Except.ok same.symm⟩
  · rename_i unsettled
    rw [Outcome.map_ok]
    simp [not_or.mp unsettled]

end Hierarchy

namespace EditedClass

variable {edited : EditedClass} {around : Hierarchy} {source : ClassSource}
  {a b common : BinaryName}

section Questions

/-- What a question about two classes comes to. -/
inductive Reply where
  | answer (outcome : Except Fault BinaryName)
  /-- The question is put again, about other classes. -/
  | again (a b : BinaryName)
  /-- The hierarchy around is asked. -/
  | ask (a b : BinaryName)

/-- The edited class comes first, and its superclass takes its place. -/
def reply (edited : EditedClass) (a b : BinaryName) : Reply :=
  if a = b then .answer (.ok a)
  else if b = edited.name then .again b a
  else if a = edited.name then
    match edited.superclass with
    | none => .answer (.ok .object)
    | some superclass =>
      if superclass = edited.name then .answer (.error (.hierarchyCycle superclass))
      else .again superclass b
  else .ask a b

/-- A question leads to an outcome by a number of calls, with some questions to the hierarchy
around. -/
inductive Resolves (edited : EditedClass) (around : Hierarchy) : BinaryName → BinaryName →
    (calls : Nat) → (asked : List (BinaryName × BinaryName)) → Except Fault BinaryName → Prop where
  | answer {a b : BinaryName} {outcome : Except Fault BinaryName}
      (replied : edited.reply a b = .answer outcome) : Resolves edited around a b 1 [] outcome
  | ask {a b x y : BinaryName} (replied : edited.reply a b = .ask x y) :
      Resolves edited around a b 1 [(x, y)] (around.commonSuperclass x y)
  | again {a b x y : BinaryName} {calls : Nat} {asked : List (BinaryName × BinaryName)}
      {outcome : Except Fault BinaryName} (replied : edited.reply a b = .again x y)
      (later : Resolves edited around x y calls asked outcome) :
      Resolves edited around a b (calls + 1) asked outcome

theorem Resolves.unique {calls calls' : Nat} {asked asked' : List (BinaryName × BinaryName)}
    {outcome outcome' : Except Fault BinaryName}
    (first : edited.Resolves around a b calls asked outcome)
    (second : edited.Resolves around a b calls' asked' outcome') :
    calls = calls' ∧ asked = asked' ∧ outcome = outcome' := by
  induction first generalizing calls' with
  | answer replied =>
    cases second with
    | answer again =>
      cases replied.symm.trans again
      exact ⟨rfl, rfl, rfl⟩
    | ask again | again again => cases replied.symm.trans again
  | ask replied =>
    cases second with
    | ask again =>
      cases replied.symm.trans again
      exact ⟨rfl, rfl, rfl⟩
    | answer again | again again => cases replied.symm.trans again
  | again replied _ ih =>
    cases second with
    | answer again | ask again => cases replied.symm.trans again
    | again again later =>
      cases replied.symm.trans again
      obtain ⟨rfl, rfl, rfl⟩ := ih later
      exact ⟨rfl, rfl, rfl⟩

/-- Two classes other than the edited one are left to the hierarchy around, unless they are one. -/
theorem resolves_others (around : Hierarchy) (aOther : a ≠ edited.name) (bOther : b ≠ edited.name) :
    ∃ asked, edited.Resolves around a b 1 asked
        (if a = b then .ok b else around.commonSuperclass a b) ∧
      ∀ pair ∈ asked, pair.1 ≠ edited.name ∧ pair.2 ≠ edited.name := by
  by_cases same : a = b
  · rw [if_pos same]
    exact ⟨[], .answer (by rw [reply, if_pos same, same]), by simp⟩
  · rw [if_neg same]
    refine ⟨[(a, b)], .ask ?_, ?_⟩
    · rw [reply, if_neg same, if_neg bOther, if_neg aOther]
    · simp [aOther, bOther]

/-- In the place of the edited class its superclass is asked about. -/
theorem resolves_edited (around : Hierarchy) (bOther : b ≠ edited.name) :
    ∃ calls ≤ 2, ∃ asked,
      edited.Resolves around edited.name b calls asked (edited.commonWith around b) ∧
      ∀ pair ∈ asked, pair.1 ≠ edited.name ∧ pair.2 ≠ edited.name := by
  have replied : edited.reply edited.name b = match edited.superclass with
      | none => .answer (.ok .object)
      | some superclass =>
        if superclass = edited.name then .answer (.error (.hierarchyCycle superclass))
        else .again superclass b := by
    rw [reply, if_neg (Ne.symm bOther), if_neg bOther, if_pos rfl]
  unfold commonWith
  cases declared : edited.superclass with
  | none =>
    rw [declared] at replied
    exact ⟨1, by decide, [], .answer replied, by simp⟩
  | some superclass =>
    rw [declared] at replied
    simp only at replied ⊢
    by_cases cycle : superclass = edited.name
    · rw [if_pos cycle] at replied ⊢
      exact ⟨1, by decide, [], .answer replied, by simp⟩
    · rw [if_neg cycle] at replied ⊢
      obtain ⟨asked, resolved, others⟩ := resolves_others around cycle bOther
      exact ⟨2, by decide, asked, .again replied resolved, others⟩

/-- Every question is settled after three calls at most, none of which asks the hierarchy around
about the edited class. -/
theorem resolves (edited : EditedClass) (around : Hierarchy) (a b : BinaryName) :
    ∃ calls ≤ 3, ∃ asked,
      edited.Resolves around a b calls asked ((edited.hierarchy around).commonSuperclass a b) ∧
      ∀ pair ∈ asked, pair.1 ≠ edited.name ∧ pair.2 ≠ edited.name := by
  simp only [hierarchy]
  by_cases same : a = b
  · rw [if_pos same]
    exact ⟨1, by decide, [], .answer (by rw [reply, if_pos same]), by simp⟩
  rw [if_neg same]
  by_cases second : b = edited.name
  · rw [if_pos second]
    obtain ⟨calls, few, asked, resolved, others⟩ :=
      resolves_edited around (second ▸ same)
    refine ⟨calls + 1, Nat.succ_le_succ few, asked, .again ?_ resolved, others⟩
    rw [reply, if_neg same, if_pos second, second]
  rw [if_neg second]
  by_cases first : a = edited.name
  · rw [if_pos first, first]
    obtain ⟨calls, few, asked, resolved, others⟩ := resolves_edited around second
    exact ⟨calls, few.trans (by decide), asked, resolved, others⟩
  · rw [if_neg first]
    obtain ⟨asked, resolved, others⟩ := resolves_others around first second
    rw [if_neg same] at resolved
    exact ⟨1, by decide, asked, resolved, others⟩

end Questions

section Answers

/-- What is answered for the edited class and a different one. -/
theorem hierarchy_edited (different : b ≠ edited.name) :
    (edited.hierarchy around).commonSuperclass edited.name b = edited.commonWith around b ∧
      (edited.hierarchy around).commonSuperclass b edited.name = edited.commonWith around b := by
  simp [hierarchy, different, Ne.symm different]

theorem hierarchy_others (aOther : a ≠ edited.name) (bOther : b ≠ edited.name)
    (different : a ≠ b) : (edited.hierarchy around).commonSuperclass a b =
      around.commonSuperclass a b := by
  simp [hierarchy, aOther, bOther, different]

theorem hierarchy_self : (edited.hierarchy around).commonSuperclass a a = .ok a := by
  simp [hierarchy]

/-- An answer for the edited class is the root if it has no superclass, else one for its superclass.
-/
theorem commonWith_ok (answer : edited.commonWith around b = .ok common) :
    (edited.superclass = none ∧ common = .object) ∨
    ∃ superclass, edited.superclass = some superclass ∧ superclass ≠ edited.name ∧
      ((superclass = b ∧ common = b) ∨ around.commonSuperclass superclass b = .ok common) := by
  unfold commonWith at answer
  split at answer
  · rename_i isRoot
    cases answer
    exact .inl ⟨isRoot, rfl⟩
  · rename_i superclass declared
    split at answer
    · cases answer
    · rename_i noCycle
      refine .inr ⟨superclass, declared, noCycle, ?_⟩
      split at answer
      · rename_i same
        cases answer
        exact .inl ⟨same, rfl⟩
      · exact .inr answer

/-- The direct supertypes that the source has, and the superclass that the edited class declares. -/
def Edge (edited : EditedClass) (source : ClassSource) (sub sup : BinaryName) : Prop :=
  source.Edge sub sup ∨ sub = edited.name ∧ edited.superclass = some sup

/-- Supertypes lead from one class to the other. An edited class without a superclass is the root,
which takes every class, also one that the source does not know. -/
def Assignable (edited : EditedClass) (source : ClassSource) (sub sup : BinaryName) : Prop :=
  ReflTransGen (edited.Edge source) sub sup ∨ sup = edited.name ∧ edited.superclass = none

theorem Assignable.refl (name : BinaryName) : edited.Assignable source name name := .inl .refl

theorem Assignable.ofSource (path : source.Assignable a b) : edited.Assignable source a b :=
  .inl (ReflTransGen.mono (fun _ _ => .inl) _ _ path)

theorem Assignable.ofSuperclass {superclass : BinaryName}
    (declared : edited.superclass = some superclass) (path : edited.Assignable source superclass b) :
    edited.Assignable source edited.name b := by
  rcases path with path | ⟨-, isRoot⟩
  · exact .inl (.head (.inr ⟨rfl, declared⟩) path)
  · rw [declared] at isRoot
    cases isRoot

section WellFormed

variable (wf : source.WellFormed) (rooted : edited.superclass = none → edited.name = .object)

include wf rooted

theorem commonWith_above (answer : edited.commonWith source.hierarchy b = .ok common) :
    edited.Assignable source edited.name common ∧ edited.Assignable source b common := by
  rcases commonWith_ok answer with ⟨isRoot, rfl⟩ | ⟨superclass, declared, -, ⟨rfl, rfl⟩ | answer⟩
  · exact ⟨.inr ⟨(rooted isRoot).symm, isRoot⟩, .inr ⟨(rooted isRoot).symm, isRoot⟩⟩
  · exact ⟨.ofSuperclass declared (.refl _), .refl _⟩
  · have isCommon := wf.hierarchy_isCommonSuperclass answer
    exact ⟨.ofSuperclass declared (.ofSource isCommon.left), .ofSource isCommon.right⟩

theorem hierarchy_above
    (answer : (edited.hierarchy source.hierarchy).commonSuperclass a b = .ok common) :
    edited.Assignable source a common ∧ edited.Assignable source b common := by
  by_cases same : a = b
  · subst same
    cases hierarchy_self.symm.trans answer
    exact ⟨.refl _, .refl _⟩
  by_cases first : a = edited.name
  · subst first
    rw [(hierarchy_edited (Ne.symm same)).1] at answer
    exact commonWith_above wf rooted answer
  by_cases second : b = edited.name
  · subst second
    rw [(hierarchy_edited same).2] at answer
    exact (commonWith_above wf rooted answer).symm
  · rw [hierarchy_others first second same] at answer
    have isCommon := wf.hierarchy_isCommonSuperclass answer
    exact ⟨.ofSource isCommon.left, .ofSource isCommon.right⟩

end WellFormed

theorem hierarchy_symm (wf : source.WellFormed)
    (answer : (edited.hierarchy source.hierarchy).commonSuperclass a b = .ok common) :
    (∀ back, (edited.hierarchy source.hierarchy).commonSuperclass b a = .ok back →
      back = common) ∧
    (source.Bounded →
      (edited.hierarchy source.hierarchy).commonSuperclass b a = .ok common) := by
  by_cases same : a = b
  · subst same
    exact ⟨fun back again => Except.ok.inj (again.symm.trans answer), fun _ => answer⟩
  by_cases either : a = edited.name ∨ b = edited.name
  · have swapped : (edited.hierarchy source.hierarchy).commonSuperclass b a = .ok common := by
      rw [← answer]
      rcases either with rfl | rfl
      · rw [(hierarchy_edited (Ne.symm same)).1, (hierarchy_edited (Ne.symm same)).2]
      · rw [(hierarchy_edited same).1, (hierarchy_edited same).2]
    exact ⟨fun back again => Except.ok.inj (again.symm.trans swapped), fun _ => swapped⟩
  · obtain ⟨first, second⟩ := not_or.mp either
    rw [hierarchy_others first second same] at answer
    rw [hierarchy_others second first (Ne.symm same)]
    exact wf.hierarchy_symm answer

/-- Around a class that is edited, every answer is above both classes and the same in both orders,
and it takes at most three calls, none of which asks the source about the edited class. -/
theorem hierarchy_sound (wf : source.WellFormed)
    (rooted : edited.superclass = none → edited.name = .object) (a b : BinaryName) :
    (∀ common, (edited.hierarchy source.hierarchy).commonSuperclass a b = .ok common →
      edited.Assignable source a common ∧ edited.Assignable source b common ∧
      (∀ back, (edited.hierarchy source.hierarchy).commonSuperclass b a = .ok back →
        back = common) ∧
      (source.Bounded →
        (edited.hierarchy source.hierarchy).commonSuperclass b a = .ok common)) ∧
    ∃ calls ≤ 3, ∃ asked, (∀ pair ∈ asked, pair.1 ≠ edited.name ∧ pair.2 ≠ edited.name) ∧
      ∀ calls' asked' outcome, edited.Resolves source.hierarchy a b calls' asked' outcome ↔
        calls' = calls ∧ asked' = asked ∧
          outcome = (edited.hierarchy source.hierarchy).commonSuperclass a b := by
  refine ⟨fun common answer => ?_, ?_⟩
  · obtain ⟨aBelow, bBelow⟩ := hierarchy_above wf rooted answer
    exact ⟨aBelow, bBelow, hierarchy_symm wf answer⟩
  · obtain ⟨calls, few, asked, resolved, others⟩ := edited.resolves source.hierarchy a b
    refine ⟨calls, few, asked, others, fun calls' asked' outcome => ⟨fun other => ?_, ?_⟩⟩
    · exact other.unique resolved
    · rintro ⟨rfl, rfl, rfl⟩
      exact resolved

end Answers

section Superclasses

/-- The superclass that a class declares, the edited one for itself and the others at the source. -/
def Superclass (edited : EditedClass) (source : ClassSource) (sub sup : BinaryName) : Prop :=
  (sub = edited.name ∧ edited.superclass = some sup) ∨
    sub ≠ edited.name ∧ source.Superclass sub sup

/-- Declared superclasses lead from one class to the other. -/
def Subclass (edited : EditedClass) (source : ClassSource) : BinaryName → BinaryName → Prop :=
  ReflTransGen (edited.Superclass source)

/-- If the source knows the edited class at all, it has the same superclass there. -/
def Agrees (edited : EditedClass) (source : ClassSource) : Prop :=
  ∀ header, source.find edited.name = .ok (some header) → header.superclass = edited.superclass

theorem Agrees.superclass (agrees : edited.Agrees source) (loads : source.Loads edited.name)
    {superclass : BinaryName} (declared : edited.superclass = some superclass) :
    source.Superclass edited.name superclass := by
  obtain ⟨header, found, -⟩ := loads.header
  exact ⟨header, found, (agrees header found).trans declared⟩

/-- What the source has loaded, it has with the declared superclasses. -/
theorem Agrees.subclass (agrees : edited.Agrees source) (loads : source.Loads a)
    (below : edited.Subclass source a b) : source.Subclass a b := by
  induction below using ReflTransGen.head_induction_on with
  | refl => exact .refl
  | @head first second step _ ih =>
    have above : source.Superclass first second := by
      rcases step with ⟨rfl, declared⟩ | ⟨-, above⟩
      · exact agrees.superclass loads declared
      · exact above
    exact .head above (ih (loads.edge above.edge))

variable (agrees : edited.Agrees source)

include agrees

/-- Of two classes, one of which is below the other, the upper one is answered, unless it is the
edited class. -/
theorem hierarchy_upper (below : edited.Subclass source a b) (isOther : b = edited.name → a = b)
    (answer : (edited.hierarchy source.hierarchy).commonSuperclass a b = .ok common ∨
      (edited.hierarchy source.hierarchy).commonSuperclass b a = .ok common) : common = b := by
  by_cases same : a = b
  · subst same
    rw [or_self, hierarchy_self] at answer
    exact (Except.ok.inj answer).symm
  have second : b ≠ edited.name := fun isEdited => same (isOther isEdited)
  by_cases first : a = edited.name
  · subst first
    rw [(hierarchy_edited second).1, (hierarchy_edited second).2, or_self] at answer
    obtain ⟨superclass, step, rest⟩ := (ReflTransGen.cases_head below).resolve_left same
    obtain ⟨-, declared⟩ := step.resolve_right fun other => other.1 rfl
    rcases commonWith_ok answer with ⟨isRoot, -⟩ | ⟨_, again, -, ⟨-, found⟩ | answer⟩
    · rw [declared] at isRoot
      cases isRoot
    · exact found
    · cases declared.symm.trans again
      have loads := (ClassSource.hierarchy_loads answer).1
      exact ClassSource.hierarchy_of_subclass (agrees.subclass loads rest) (.inl answer)
  · rw [hierarchy_others first second same, hierarchy_others second first (Ne.symm same)] at answer
    have loads : source.Loads a := by
      rcases answer with answer | answer
      · exact (ClassSource.hierarchy_loads answer).1
      · exact (ClassSource.hierarchy_loads answer).2
    exact ClassSource.hierarchy_of_subclass (agrees.subclass loads below) answer

/-- Of the edited class and one below it, the superclass of the edited class is answered. -/
theorem hierarchy_ofEdited (below : edited.Subclass source a edited.name)
    (different : a ≠ edited.name)
    (answer : (edited.hierarchy source.hierarchy).commonSuperclass a edited.name = .ok common ∨
      (edited.hierarchy source.hierarchy).commonSuperclass edited.name a = .ok common) :
    common = edited.superclass.getD .object ∧ edited.superclass ≠ some edited.name := by
  rw [(hierarchy_edited different).1, (hierarchy_edited different).2, or_self] at answer
  rcases commonWith_ok answer with ⟨isRoot, rfl⟩ | ⟨superclass, declared, noCycle, answer⟩
  · simp [isRoot]
  · rw [declared, Option.getD_some]
    refine ⟨?_, fun same => noCycle (Option.some.inj same)⟩
    rcases answer with ⟨rfl, rfl⟩ | answer
    · rfl
    · have loads := (ClassSource.hierarchy_loads answer).2
      have belowEdited := agrees.subclass loads below
      have above := agrees.superclass (loads.path belowEdited.assignable) declared
      exact ClassSource.hierarchy_of_subclass (belowEdited.tail above) (.inr answer)

/-- If one class is below the other, the other one is answered, and never said not to be above. Only
of classes below the edited one that is not true: its superclass is answered in its place, and they
are said not to be below it. -/
theorem hierarchy_ofSubclass (below : edited.Subclass source a b) :
    ((b = edited.name → a = b) →
      (∀ common, (edited.hierarchy source.hierarchy).commonSuperclass a b = .ok common ∨
        (edited.hierarchy source.hierarchy).commonSuperclass b a = .ok common → common = b) ∧
      (edited.hierarchy source.hierarchy).isSubclass a b ≠ .ok false) ∧
    (b = edited.name → a ≠ b →
      (∀ common, (edited.hierarchy source.hierarchy).commonSuperclass a b = .ok common ∨
        (edited.hierarchy source.hierarchy).commonSuperclass b a = .ok common →
          common = edited.superclass.getD .object) ∧
      ∀ answer, (edited.hierarchy source.hierarchy).isSubclass a b = .ok answer →
        answer = decide (b = .object)) := by
  refine ⟨fun isOther => ⟨fun common => hierarchy_upper agrees below isOther, fun denied => ?_⟩,
    fun isEdited different => ?_⟩
  · obtain ⟨-, -, common, answer, isUpper⟩ | ⟨-, isTrue⟩ := Hierarchy.isSubclass_ok.mp denied
    · exact of_decide_eq_false isUpper (hierarchy_upper agrees below isOther (.inr answer))
    · cases isTrue
  · subst isEdited
    refine ⟨fun common answer => (hierarchy_ofEdited agrees below different answer).1,
      fun answer answered => ?_⟩
    obtain ⟨-, notRoot, common, found, isUpper⟩ | ⟨same | isRoot, isTrue⟩ :=
      Hierarchy.isSubclass_ok.mp answered
    · obtain ⟨rfl, noCycle⟩ := hierarchy_ofEdited agrees below different (.inr found)
      rw [← isUpper, decide_eq_decide]
      cases declared : edited.superclass with
      | none => exact eq_comm
      | some superclass =>
        rw [declared] at noCycle
        simp [notRoot, show superclass ≠ edited.name from fun same => noCycle (same ▸ rfl)]
    · exact (different same).elim
    · simp [isTrue, isRoot]

end Superclasses

end EditedClass

namespace Pets

def puppy : BinaryName := ⟨"app/Puppy", by decide⟩

/-- A class that is not in the source. -/
def editedPuppy : EditedClass := ⟨puppy, some dog⟩

/-- A class that the source has as well. -/
def editedAnimal : EditedClass := ⟨animal, some .object⟩

theorem animal_extends : source.Superclass animal .object :=
  ⟨_, found ⟨animal, some .object, [], false⟩ (by decide), rfl⟩

theorem editedPuppy_agrees : editedPuppy.Agrees source := by
  intro header isThere
  obtain ⟨listed, named⟩ := ClassSource.ofHeaders_found isThere
  have others : ∀ header ∈ headers, header.name ≠ puppy := by decide
  exact (others header listed named).elim

theorem editedAnimal_agrees : editedAnimal.Agrees source := by
  intro header isThere
  obtain ⟨other, again, above⟩ := animal_extends
  cases again.symm.trans isThere
  exact above

theorem answers {a b : BinaryName} (loadsA : source.Loads a) (loadsB : source.Loads b) :
    ∃ common, source.hierarchy.commonSuperclass a b = .ok common :=
  GraphM.commonSuperclass_answers (ClassSource.ofHeaders_bounded headers) loadsA loadsB .empty
    ClassGraph.empty_faithful

/-- The edited class is compared as its superclass is. -/
theorem puppy_as_dog {other : BinaryName} (notPuppy : other ≠ puppy) (notDog : other ≠ dog) :
    (editedPuppy.hierarchy source.hierarchy).commonSuperclass puppy other =
      source.hierarchy.commonSuperclass dog other := by
  rw [show puppy = editedPuppy.name from rfl, (EditedClass.hierarchy_edited notPuppy).1]
  simp [EditedClass.commonWith, editedPuppy, Ne.symm notDog, show dog ≠ puppy by decide]

end Pets

theorem EditedClass.puppy_meets_animal : Pets.editedPuppy.Agrees Pets.source ∧
    Pets.editedPuppy.Subclass Pets.source Pets.puppy Pets.animal ∧
    (Pets.editedPuppy.hierarchy Pets.source.hierarchy).commonSuperclass Pets.puppy Pets.animal =
      .ok Pets.animal ∧
    (Pets.editedPuppy.hierarchy Pets.source.hierarchy).isSubclass Pets.puppy Pets.animal ≠
      .ok false := by
  have below : Pets.editedPuppy.Subclass Pets.source Pets.puppy Pets.animal :=
    .head (.inl ⟨rfl, rfl⟩) (.single (.inr ⟨by decide, Pets.dog_extends⟩))
  obtain ⟨upper, notDenied⟩ := (EditedClass.hierarchy_ofSubclass Pets.editedPuppy_agrees below).1
    (fun isEdited => absurd isEdited (by decide))
  obtain ⟨common, answer⟩ := Pets.answers Pets.loads.1 (Pets.loads.1.edge Pets.dog_extends.edge)
  rw [← Pets.puppy_as_dog (by decide) (by decide)] at answer
  cases upper common (.inl answer)
  exact ⟨Pets.editedPuppy_agrees, below, answer, notDenied⟩

/-- Where a class of the source is edited, its subclasses are said not to be below it. -/
theorem EditedClass.dog_denied : Pets.editedAnimal.Agrees Pets.source ∧
    Pets.editedAnimal.Subclass Pets.source Pets.dog Pets.animal ∧
    (Pets.editedAnimal.hierarchy Pets.source.hierarchy).commonSuperclass Pets.dog Pets.animal =
      .ok .object ∧
    (Pets.editedAnimal.hierarchy Pets.source.hierarchy).isSubclass Pets.dog Pets.animal =
      .ok false := by
  have dogBelow : Pets.source.Subclass Pets.dog .object :=
    .head Pets.dog_extends (.single Pets.animal_extends)
  obtain ⟨common, answer⟩ := Pets.answers (Pets.loads.1.path dogBelow.assignable) Pets.loads.1
  cases ClassSource.hierarchy_of_subclass dogBelow (.inr answer)
  have asObject : Pets.editedAnimal.commonWith Pets.source.hierarchy Pets.dog = .ok .object := by
    rw [← answer]
    rfl
  have different : Pets.dog ≠ Pets.editedAnimal.name := by decide
  refine ⟨Pets.editedAnimal_agrees, .single (.inr ⟨different, Pets.dog_extends⟩),
    (EditedClass.hierarchy_edited different).2.trans asObject, ?_⟩
  exact Hierarchy.isSubclass_ok.mpr (.inl ⟨by decide, by decide, .object,
    (EditedClass.hierarchy_edited different).1.trans asObject, by decide⟩)

/-- A class that the source does not know shares with a class of the source what its superclass
does. -/
theorem EditedClass.puppy_meets_cat : Pets.source.WellFormed ∧
    (Pets.editedPuppy.superclass = none → Pets.editedPuppy.name = .object) ∧
    (Pets.editedPuppy.hierarchy Pets.source.hierarchy).commonSuperclass Pets.puppy Pets.cat =
      .ok Pets.animal ∧
    Pets.editedPuppy.Assignable Pets.source Pets.puppy Pets.animal ∧
    (Pets.editedPuppy.hierarchy Pets.source.hierarchy).commonSuperclass Pets.cat Pets.puppy =
      .ok Pets.animal := by
  have rooted : Pets.editedPuppy.superclass = none → Pets.editedPuppy.name = .object :=
    fun isRoot => by cases isRoot
  obtain ⟨common, answer⟩ := Pets.answers Pets.loads.1 Pets.loads.2
  cases Pets.closest (Pets.wellFormed.hierarchy_isCommonSuperclass answer)
  rw [← Pets.puppy_as_dog (by decide) (by decide)] at answer
  obtain ⟨below, -, -, swapped⟩ :=
    (EditedClass.hierarchy_sound Pets.wellFormed rooted Pets.puppy Pets.cat).1 _ answer
  exact ⟨Pets.wellFormed, rooted, answer, below, swapped (ClassSource.ofHeaders_bounded _)⟩

end ClassWeave
