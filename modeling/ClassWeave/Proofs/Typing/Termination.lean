import Mathlib.Algebra.Order.BigOperators.Group.Finset
import ClassWeave.Proofs.ClassGraph.Edited
import ClassWeave.Proofs.Typing.Fixpoint
import ClassWeave.Proofs.Typing.Heights

/-!
# Frames settle

Each step of the search for frames takes one position off those that are pending, and it only adds
others if a frame is new or lower in rank. In a hierarchy of finitely many classes without cycles
this ends, with frames for the whole body or with a fault.
-/

namespace ClassWeave

open Relation

namespace FrameSearch

open Hierarchy

section Ranks

variable (direct : BinaryName → BinaryName → Prop)

open Classical in
/-- A position has no frame at first, then one as it was found, and from then on frames that merging
has written, each of them lower than the one before. -/
noncomputable def positionRank : Option VFrame → ℕ ×ₗ ℕ ×ₗ ℕ
  | none => toLex (2, 0)
  | some frame => if Tidy frame.locals then toLex (0, frameRank direct frame) else toLex (1, 0)

noncomputable def rank (search : FrameSearch) : ℕ ×ₗ ℕ ×ₗ ℕ :=
  ∑ position ∈ Finset.range search.typing.frames.size,
    positionRank direct (search.typing.frameAt position)

/-- What every step lowers. -/
noncomputable def ahead (search : FrameSearch) : (ℕ ×ₗ ℕ ×ₗ ℕ) ×ₗ ℕ :=
  toLex (rank direct search, search.pending.length)

end Ranks

variable {hierarchy : Hierarchy} {direct : BinaryName → BinaryName → Prop}

theorem positionRank_found (frame : VFrame) :
    positionRank direct (some frame) < positionRank direct none := by
  simp only [positionRank]
  split <;> simp [Prod.Lex.toLex_lt_toLex]

theorem positionRank_merged (grounded : hierarchy.Grounded direct) {item : Nat}
    {existing incoming merged : VFrame}
    (found : hierarchy.mergeFrames item existing incoming = .ok merged)
    (changed : merged ≠ existing) :
    positionRank direct (some merged) < positionRank direct (some existing) := by
  obtain ⟨tidy, descend⟩ := grounded.mergeFrames_descends found
  simp only [positionRank, if_pos tidy]
  split
  · rename_i tidyBefore
    have lower := (descend tidyBefore).resolve_left changed
    exact Prod.Lex.toLex_lt_toLex.mpr (.inr ⟨rfl, lower⟩)
  · exact Prod.Lex.toLex_lt_toLex.mpr (.inl Nat.zero_lt_one)

theorem rank_put {search : FrameSearch} {target : Nat} {frame : VFrame}
    (inside : target < search.typing.frames.size)
    (lower : positionRank direct (some frame) <
      positionRank direct (search.typing.frameAt target)) :
    rank direct (search.put target frame) < rank direct search := by
  have size : (search.put target frame).typing.frames.size = search.typing.frames.size :=
    Array.size_setIfInBounds
  simp only [rank, size, frameAt_put inside]
  refine Finset.sum_lt_sum (fun position _ => ?_) ⟨target, Finset.mem_range.mpr inside, ?_⟩
  · split
    · rename_i same
      exact (same ▸ lower).le
    · exact le_refl _
  · rwa [if_pos rfl]

section Steps

variable (grounded : hierarchy.Grounded direct)

include grounded

/-- Reaching a position changes nothing or lowers the rank of the frame there. -/
theorem reach_descends {search next : FrameSearch} {target : Nat} {incoming : VFrame}
    (inside : target < search.typing.frames.size)
    (done : search.reach hierarchy target incoming = .ok next) :
    Descends (rank direct) search next := by
  rcases reach_cases done with ⟨rfl, -⟩ | ⟨missing, rfl⟩ |
    ⟨existing, merged, found, mergedFound, changed, rfl⟩
  · exact .inl rfl
  · exact .inr (rank_put inside (missing ▸ positionRank_found incoming))
  · exact .inr (rank_put inside (found ▸ positionRank_merged grounded mergedFound changed))

theorem follow_descends {edges : List (Nat × VFrame)} {search next : FrameSearch}
    (inside : ∀ edge ∈ edges, edge.1 < search.typing.frames.size)
    (done : edges.foldlM (fun search (target, incoming) => search.reach hierarchy target incoming)
      search = .ok next) :
    Descends (rank direct) search next := by
  induction edges generalizing search with
  | nil =>
    cases Outcome.pure_ok.mp done
    exact .inl rfl
  | cons edge rest ih =>
    rw [List.foldlM_cons] at done
    obtain ⟨middle, middleFound, later⟩ := Outcome.bind_ok.mp done
    have edgeInside := inside edge List.mem_cons_self
    have grows := (reach_grows (ascends_trivially hierarchy) edgeInside middleFound).1
    have restInside (other : Nat × VFrame) (member : other ∈ rest) :
        other.1 < middle.typing.frames.size := by
      rw [grows.size]
      exact inside other (List.mem_cons_of_mem edge member)
    exact (reach_descends grounded edgeInside middleFound).trans (ih restInside later)

variable {graph : FlowGraph} {body : Body} {method : MethodContext}

/-- One step leaves less ahead: fewer positions pending, or a lower rank. -/
theorem step_ahead (described : graph.Describes body) {typing : Typing} {position : Nat}
    {pending : List Nat} {next : FrameSearch} (size : typing.frames.size = body.items.length)
    (done : step hierarchy graph method position ⟨typing, pending⟩ = .ok next) :
    ahead direct next < ahead direct ⟨typing, position :: pending⟩ := by
  have shorter : pending.length < (position :: pending).length := Nat.lt_succ_self _
  rcases step_cases described size done with ⟨-, rfl⟩ |
    ⟨before, item, effect, -, itemFound, effectFound, edgesDone⟩
  · exact Prod.Lex.toLex_lt_toLex.mpr (.inr ⟨rfl, shorter⟩)
  · have inside (edge : Nat × VFrame) (member : edge ∈ effect.edges) :
        edge.1 < typing.frames.size :=
      size ▸ described.edge_inside itemFound effectFound member
    rcases follow_descends grounded inside edgesDone with rfl | lower
    · exact Prod.Lex.toLex_lt_toLex.mpr (.inr ⟨rfl, shorter⟩)
    · exact Prod.Lex.toLex_lt_toLex.mpr (.inl lower)

/-- The search ends after a number of steps, and not before. -/
theorem run_ends (described : graph.Describes body) {search : FrameSearch}
    (invariant : Invariant (fun _ _ => True) graph body method search) :
    ∃ steps outcome, (∀ fuel, search.run hierarchy graph method fuel = outcome ↔ steps ≤ fuel) ∧
      ∀ final, outcome = .ok final → final.pending = [] := by
  -- the induction is on what is ahead, as no number bounds the steps from the start: null gives way
  -- to references of any rank
  induction left : ahead direct search using WellFoundedLT.induction generalizing search with
  | _ _ ih =>
  obtain ⟨typing, pending⟩ := search
  cases pending with
  | nil =>
    refine ⟨0, .ok ⟨typing, []⟩, fun fuel => ?_, ?_⟩
    · cases fuel <;> simp [run]
    · rintro _ ⟨⟩
      rfl
  | cons position pending =>
    cases stepped : step hierarchy graph method position ⟨typing, pending⟩ with
    | error fault =>
      refine ⟨1, .error fault, fun fuel => ?_, fun final impossible => by cases impossible⟩
      cases fuel with
      | zero => simp [run]
      | succ fuel =>
        rw [run, stepped]
        exact iff_of_true rfl (Nat.succ_le_succ fuel.zero_le)
    | ok next =>
      obtain ⟨steps, outcome, settles, ended⟩ := ih _
        (left ▸ step_ahead grounded described invariant.size stepped)
        (step_invariant (ascends_trivially hierarchy) described invariant stepped) rfl
      refine ⟨steps + 1, outcome, fun fuel => ?_, ended⟩
      cases fuel with
      | zero =>
        refine iff_of_false (fun same => ?_) (Nat.not_succ_le_zero steps)
        cases ended _ same.symm
      | succ fuel =>
        rw [run_next stepped, settles fuel]
        exact Nat.succ_le_succ_iff.symm

end Steps

end FrameSearch

/-- The search for the frames of a body, after at most `fuel` steps. -/
def Body.searchFrames (body : Body) (method : MethodContext) (hierarchy : Hierarchy)
    (fuel : Nat) : Except Fault FrameSearch := do
  let graph ← FlowGraph.ofBody body
  let search ← FrameSearch.start graph method
  search.run hierarchy graph method fuel

namespace Body

variable {hierarchy : Hierarchy} {direct : BinaryName → BinaryName → Prop}

/-- In a hierarchy of finitely many classes without cycles, the search for the frames of any body
takes finitely many steps. It ends with nothing pending or with a fault, and the frames are those
that it ends with. -/
theorem searchFrames_ends (grounded : hierarchy.Grounded direct) (body : Body)
    (method : MethodContext) :
    ∃ steps outcome,
      (∀ fuel, body.searchFrames method hierarchy fuel = outcome ↔ steps ≤ fuel) ∧
      (∀ search, outcome = .ok search → search.pending = []) ∧
      (steps ≤ FrameSearch.maxSteps →
        body.inferFrames method hierarchy = FrameSearch.typing <$> outcome) := by
  have faultEnds (fault : Fault) (search : FrameSearch)
      (impossible : Except.error fault = .ok search) : search.pending = [] := by
    cases impossible
  cases graphFound : FlowGraph.ofBody body with
  | error fault =>
    refine ⟨0, .error fault, fun fuel => iff_of_true ?_ fuel.zero_le, faultEnds fault, fun _ => ?_⟩
    · simp only [searchFrames, graphFound, bind, Except.bind]
    · simp only [inferFrames, graphFound, bind, Except.bind]
      rfl
  | ok graph =>
    cases started : FrameSearch.start graph method with
    | error fault =>
      refine ⟨0, .error fault, fun fuel => iff_of_true ?_ fuel.zero_le, faultEnds fault,
        fun _ => ?_⟩
      · simp only [searchFrames, graphFound, started, bind, Except.bind]
      · simp only [inferFrames, graphFound, started, bind, Except.bind]
        rfl
    | ok search =>
      have described := FlowGraph.ofBody_describes graphFound
      have invariant := FrameSearch.start_invariant (FrameSearch.ascends_trivially hierarchy)
        described started
      obtain ⟨steps, outcome, settles, ended⟩ :=
        FrameSearch.run_ends grounded described invariant
      refine ⟨steps, outcome, fun fuel => ?_, ended, fun inTime => ?_⟩
      · simp only [searchFrames, graphFound, started, bind, Except.bind]
        exact settles fuel
      · have ran := (settles FrameSearch.maxSteps).mpr inTime
        simp only [inferFrames, graphFound, started, ran, bind, Except.bind]
        cases outcome with
        | error fault => rfl
        | ok final =>
          obtain ⟨typing, pending⟩ := final
          cases ended _ rfl
          rfl

end Body

namespace ClassSource

variable {source : ClassSource}

/-- A class that can be loaded, and one of its direct supertypes. -/
def LoadedEdge (source : ClassSource) (sub sup : BinaryName) : Prop :=
  source.Loads sub ∧ source.Edge sub sup

theorem Bounded.finite (bounded : source.Bounded) : {name | source.Loads name}.Finite :=
  bounded.finite_found.subset fun _ loads => loads.header.imp fun _ => And.left

theorem Loads.loadedPath {sub sup : BinaryName} (loads : source.Loads sub)
    (path : source.Assignable sub sup) : ReflTransGen source.LoadedEdge sub sup := by
  induction path with
  | refl => exact .refl
  | tail path edge ih => exact ih.tail ⟨loads.path path, edge⟩

/-- A well-formed source of finitely many classes answers as frames need it to settle. -/
theorem WellFormed.hierarchy_grounded (wf : source.WellFormed) (bounded : source.Bounded) :
    source.hierarchy.Grounded source.LoadedEdge where
  finite := bounded.finite.subset fun _ ⟨_, loads, edge⟩ => loads.edge edge
  acyclic name cycle := by
    obtain ⟨next, ⟨loads, edge⟩, back⟩ := TransGen.head'_iff.mp cycle
    exact loads.acyclic edge (ReflTransGen.mono (fun _ _ => And.right) _ _ back)
  root _ edge := wf.no_edge edge.2
  common answer := by
    have isCommon := wf.hierarchy_isCommonSuperclass answer
    obtain ⟨loadsA, loadsB⟩ := hierarchy_loads answer
    exact ⟨loadsA.loadedPath isCommon.left, loadsB.loadedPath isCommon.right⟩

end ClassSource

namespace Pets

/-- Puts its second parameter in the place of the first one, again and again. -/
def relay : Body where
  items := [.label ⟨0⟩, .instruction (.load .reference 1), .instruction (.store .reference 0),
    .branch (.goto ⟨0⟩)]
  handlers := []
  localVariables := []
  nextLabel := ⟨1⟩

def relayMethod : MethodContext :=
  ⟨animal, ⟨"relay", by decide⟩, ⟨[.ref (.object dog), .ref (.object cat)], none⟩, true⟩

theorem hierarchy_grounded : source.hierarchy.Grounded source.LoadedEdge :=
  wellFormed.hierarchy_grounded (ClassSource.ofHeaders_bounded headers)

end Pets

theorem Body.relay_ends : Pets.source.hierarchy.Grounded Pets.source.LoadedEdge ∧
    ∃ steps outcome,
      (∀ fuel, Pets.relay.searchFrames Pets.relayMethod Pets.source.hierarchy fuel = outcome ↔
        steps ≤ fuel) ∧
      (∀ search, outcome = .ok search → search.pending = []) ∧
      (steps ≤ FrameSearch.maxSteps →
        Pets.relay.inferFrames Pets.relayMethod Pets.source.hierarchy =
          FrameSearch.typing <$> outcome) :=
  ⟨Pets.hierarchy_grounded,
    Body.searchFrames_ends Pets.hierarchy_grounded Pets.relay Pets.relayMethod⟩

end ClassWeave
