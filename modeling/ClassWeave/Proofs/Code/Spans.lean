import Mathlib.Data.List.Induction
import Mathlib.Order.MinMax
import ClassWeave.Code.Assembly

/-!
# Spans of offsets

The spans of dead code are the longest runs of dead bytes: they hold these bytes and no others, and
there is a gap between any two of them. What is left of a span without them is just its other bytes.
-/

namespace ClassWeave

namespace Assembly

/-- The offset is in the span. -/
def Span.Holds (span : Span) (offset : Nat) : Prop := span.start ≤ offset ∧ offset < span.stop

instance (span : Span) (offset : Nat) : Decidable (span.Holds offset) :=
  inferInstanceAs (Decidable (_ ∧ _))

/-- One of the spans holds the offset. -/
def Covered (spans : List Span) (offset : Nat) : Prop := ∃ span ∈ spans, span.Holds offset

theorem covered_cons {span : Span} {spans : List Span} {offset : Nat} :
    Covered (span :: spans) offset ↔ span.Holds offset ∨ Covered spans offset := by
  simp [Covered]

theorem covered_reverse {spans : List Span} {offset : Nat} :
    Covered spans.reverse offset ↔ Covered spans offset := by
  simp [Covered]

/-- The longest runs of the given offsets, in ascending order. -/
structure Runs (offsets : List Nat) (spans : List Span) : Prop where
  covered (offset : Nat) : Covered spans offset ↔ offset ∈ offsets
  nonempty : ∀ span ∈ spans, span.start < span.stop
  apart : spans.Pairwise fun earlier later => earlier.stop < later.start

/-- Offsets that come in order are gathered into runs, the last one first. -/
theorem addDeadByte_runs {offsets : List Nat} {spans : List Span}
    (runs : Runs offsets spans.reverse) {offset : Nat} (last : ∀ earlier ∈ offsets, earlier < offset) :
    Runs (offsets ++ [offset]) (addDeadByte spans offset).reverse := by
  obtain ⟨covered, nonempty, apart⟩ := runs
  simp only [covered_reverse] at covered
  simp only [List.mem_reverse] at nonempty
  rw [List.pairwise_reverse] at apart
  have alone (place : Nat) : (⟨offset, offset + 1⟩ : Span).Holds place ↔ place = offset := by
    simp only [Span.Holds]
    omega
  cases spans with
  | nil =>
    refine ⟨fun place => ?_, by simp [addDeadByte], by simp [addDeadByte]⟩
    rw [covered_reverse, List.mem_append, List.mem_singleton, ← covered, addDeadByte, covered_cons,
      alone, or_comm]
  | cons span earlier =>
    obtain ⟨start, stop⟩ := span
    have filled : start < stop := nonempty _ List.mem_cons_self
    have before : stop ≤ offset := by
      have inside := last (stop - 1) ((covered _).mp ⟨_, List.mem_cons_self, by
        simp only [Span.Holds]
        omega⟩)
      omega
    rw [addDeadByte]
    split
    · rename_i touching
      subst touching
      refine ⟨fun place => ?_, ?_, ?_⟩
      · rw [covered_reverse, List.mem_append, List.mem_singleton, ← covered, covered_cons,
          covered_cons]
        simp only [Span.Holds]
        grind
      · simp only [List.mem_reverse, List.forall_mem_cons] at nonempty ⊢
        exact ⟨Nat.lt_succ_of_lt filled, nonempty.2⟩
      · obtain ⟨below, apart⟩ := List.pairwise_cons.mp apart
        exact List.pairwise_reverse.mpr (List.pairwise_cons.mpr ⟨below, apart⟩)
    · rename_i gap
      refine ⟨fun place => ?_, ?_, ?_⟩
      · rw [covered_reverse, List.mem_append, List.mem_singleton, ← covered, covered_cons, alone,
          or_comm]
      · simp only [List.mem_reverse, List.forall_mem_cons] at nonempty ⊢
        exact ⟨Nat.lt_succ_self offset, nonempty⟩
      · refine List.pairwise_reverse.mpr (List.pairwise_cons.mpr ⟨fun span member => ?_, apart⟩)
        change span.stop < offset
        rcases List.mem_cons.mp member with rfl | member
        · exact Nat.lt_of_le_of_ne before gap
        · have below : span.stop < start := (List.pairwise_cons.mp apart).1 span member
          omega

/-- Offsets in ascending order are gathered into their longest runs. -/
theorem foldl_addDeadByte_runs {offsets : List Nat} (ascending : offsets.Pairwise (· < ·)) :
    Runs offsets (offsets.foldl addDeadByte []).reverse := by
  induction offsets using List.reverseRecOn with
  | nil => exact ⟨by simp [Covered], by simp, by simp⟩
  | append_singleton offsets offset ih =>
    obtain ⟨earlier, -, last⟩ := List.pairwise_append.mp ascending
    rw [List.foldl_append]
    exact addDeadByte_runs (ih earlier) fun place member =>
      last place member offset (List.mem_singleton_self offset)

namespace Runs

variable {offsets : List Nat} {spans : List Span}

/-- Two spans that hold the same offset, or touch there, are the same. -/
private theorem same_span (runs : Runs offsets spans) {a b : Span} (first : a ∈ spans)
    (second : b ∈ spans) (offset : Nat) (inFirst : a.start ≤ offset ∧ offset ≤ a.stop)
    (inSecond : b.start ≤ offset ∧ offset ≤ b.stop) : a = b := by
  have apart : spans.Pairwise fun a b => a.stop < b.start := runs.apart
  rcases List.pairwise_iff_getElem.mp apart with ordered
  obtain ⟨i, iInside, rfl⟩ := List.mem_iff_getElem.mp first
  obtain ⟨j, jInside, rfl⟩ := List.mem_iff_getElem.mp second
  rcases Nat.lt_trichotomy i j with before | rfl | after
  · have gap := ordered i j iInside jInside before
    omega
  · rfl
  · have gap := ordered j i jInside iInside after
    omega

/-- A run ends after its last byte. -/
theorem stop_iff (runs : Runs offsets spans) (offset : Nat) :
    offset + 1 ∈ spans.map Span.stop ↔ offset ∈ offsets ∧ offset + 1 ∉ offsets := by
  simp only [List.mem_map, ← runs.covered]
  constructor
  · rintro ⟨span, member, ends⟩
    have filled := runs.nonempty span member
    refine ⟨⟨span, member, by simp only [Span.Holds]; omega⟩, ?_⟩
    rintro ⟨other, otherMember, holds⟩
    simp only [Span.Holds] at holds
    cases runs.same_span member otherMember (offset + 1) (by omega) (by omega)
    omega
  · rintro ⟨⟨span, member, holds⟩, outside⟩
    refine ⟨span, member, ?_⟩
    by_contra other
    simp only [Span.Holds] at holds
    exact outside ⟨span, member, by simp only [Span.Holds]; omega⟩

/-- A run starts where no byte before belongs to it. -/
theorem start_iff (runs : Runs offsets spans) (offset : Nat) :
    offset ∈ spans.map Span.start ↔
      offset ∈ offsets ∧ ∀ earlier, earlier + 1 = offset → earlier ∉ offsets := by
  simp only [List.mem_map, ← runs.covered]
  constructor
  · rintro ⟨span, member, rfl⟩
    have filled := runs.nonempty span member
    refine ⟨⟨span, member, by simp only [Span.Holds]; omega⟩, ?_⟩
    rintro earlier next ⟨other, otherMember, holds⟩
    simp only [Span.Holds] at holds
    cases runs.same_span member otherMember span.start (by omega) (by omega)
    omega
  · rintro ⟨⟨span, member, holds⟩, outside⟩
    refine ⟨span, member, ?_⟩
    by_contra other
    simp only [Span.Holds] at holds
    exact outside (offset - 1) (by omega) ⟨span, member, by simp only [Span.Holds]; omega⟩

end Runs

private theorem covered_liveSpansOnto {seen dead : List Span} {span : Span}
    (apart : dead.Pairwise fun earlier later => earlier.stop < later.start)
    (nonempty : ∀ span ∈ dead, span.start < span.stop) (offset : Nat) :
    Covered (liveSpansOnto seen span dead) offset ↔
      Covered seen offset ∨ span.Holds offset ∧ ¬ Covered dead offset := by
  induction dead generalizing seen span with
  | nil =>
    have none : ¬ Covered [] offset := by simp [Covered]
    rw [liveSpansOnto]
    split
    · rw [covered_cons]
      grind
    · simp only [Span.Holds]
      grind
  | cons run rest ih =>
    obtain ⟨before, apart⟩ := List.pairwise_cons.mp apart
    obtain ⟨filled, nonempty⟩ := List.forall_mem_cons.mp nonempty
    -- what is in the run, or before it, is in no later run
    have later : offset < run.stop → ¬ Covered rest offset := by
      rintro early ⟨other, member, holds⟩
      have gap := before other member
      simp only [Span.Holds] at holds
      omega
    rw [covered_cons, liveSpansOnto]
    split
    · rw [ih apart nonempty]
      simp only [Span.Holds] at *
      grind
    · rw [ih apart nonempty]
      split
      · rw [covered_cons]
        simp only [Span.Holds] at *
        grind
      · simp only [Span.Holds] at *
        grind

/-- What is left of a span are the bytes that are not in the runs. -/
theorem covered_liveSpans {offsets : List Nat} {dead : List Span} (runs : Runs offsets dead)
    (span : Span) (offset : Nat) :
    Covered (liveSpans span dead) offset ↔ span.Holds offset ∧ offset ∉ offsets := by
  rw [liveSpans, covered_reverse, covered_liveSpansOnto runs.apart runs.nonempty, runs.covered]
  simp [Covered]

/-- What a span is split into has the ends of the span, or ends where a run begins or ends. -/
structure PieceOf (span : Span) (dead : List Span) (piece : Span) : Prop where
  nonempty : piece.start < piece.stop
  start : piece.start = span.start ∨ ∃ run ∈ dead, piece.start = run.stop
  stop : piece.stop = span.stop ∨ ∃ run ∈ dead, piece.stop = run.start

private theorem pieceOf_liveSpansOnto {seen dead : List Span} {span piece : Span}
    (member : piece ∈ liveSpansOnto seen span dead) : piece ∈ seen ∨ PieceOf span dead piece := by
  induction dead generalizing seen span with
  | nil =>
    rw [liveSpansOnto] at member
    split at member
    · rename_i nonempty
      rcases List.mem_cons.mp member with rfl | earlier
      · exact .inr ⟨nonempty, .inl rfl, .inl rfl⟩
      · exact .inl earlier
    · exact .inl member
  | cons run rest ih =>
    rw [liveSpansOnto] at member
    split at member
    · rcases ih member with earlier | ⟨nonempty, start, stop⟩
      · exact .inl earlier
      · exact .inr ⟨nonempty, start.imp_right fun ⟨other, listed, same⟩ =>
          ⟨other, List.mem_cons_of_mem _ listed, same⟩, stop.imp_right fun ⟨other, listed, same⟩ =>
          ⟨other, List.mem_cons_of_mem _ listed, same⟩⟩
    · rcases ih member with earlier | ⟨nonempty, start, stop⟩
      · split at earlier
        · rename_i before
          rcases List.mem_cons.mp earlier with rfl | earlier
          · exact .inr ⟨before, .inl rfl, .inr ⟨run, List.mem_cons_self, rfl⟩⟩
          · exact .inl earlier
        · exact .inl earlier
      · refine .inr ⟨nonempty, ?_, stop.imp_right fun ⟨other, listed, same⟩ =>
          ⟨other, List.mem_cons_of_mem _ listed, same⟩⟩
        rcases start with same | ⟨other, listed, same⟩
        · rcases max_choice span.start run.stop with first | second
          · exact .inl (same.trans first)
          · exact .inr ⟨run, List.mem_cons_self, same.trans second⟩
        · exact .inr ⟨other, List.mem_cons_of_mem _ listed, same⟩

theorem pieceOf_liveSpans {dead : List Span} {span piece : Span}
    (member : piece ∈ liveSpans span dead) : PieceOf span dead piece :=
  (pieceOf_liveSpansOnto (List.mem_reverse.mp member)).resolve_left (by simp)

private theorem liveSpansOnto_apart {seen dead : List Span} {span : Span}
    (nonempty : ∀ run ∈ dead, run.start < run.stop)
    (apart : seen.Pairwise fun later earlier => earlier.stop ≤ later.start)
    (before : ∀ piece ∈ seen, piece.stop ≤ span.start) :
    (liveSpansOnto seen span dead).Pairwise fun later earlier => earlier.stop ≤ later.start := by
  induction dead generalizing seen span with
  | nil =>
    rw [liveSpansOnto]
    split
    · exact List.pairwise_cons.mpr ⟨before, apart⟩
    · exact apart
  | cons run rest ih =>
    obtain ⟨filled, nonempty⟩ := List.forall_mem_cons.mp nonempty
    have further : ∀ piece ∈ seen, piece.stop ≤ max span.start run.stop := fun piece member =>
      (before piece member).trans (Nat.le_max_left _ _)
    rw [liveSpansOnto]
    split
    · exact ih nonempty apart before
    · split
      · refine ih nonempty (List.pairwise_cons.mpr ⟨before, apart⟩)
          (List.forall_mem_cons.mpr ⟨?_, further⟩)
        exact filled.le.trans (Nat.le_max_right _ _)
      · exact ih nonempty apart further

/-- The pieces of a span come one after the other. -/
theorem liveSpans_apart {offsets : List Nat} {dead : List Span} (runs : Runs offsets dead)
    (span : Span) :
    (liveSpans span dead).Pairwise fun earlier later => earlier.stop ≤ later.start :=
  List.pairwise_reverse.mpr (liveSpansOnto_apart runs.nonempty .nil (by simp))

/-- One of the spans that hold an offset is all of them. -/
theorem filter_holds {spans : List Span}
    (apart : spans.Pairwise fun earlier later => earlier.stop ≤ later.start) (offset : Nat) :
    (¬ Covered spans offset ∧ spans.filter (·.Holds offset) = []) ∨
      Covered spans offset ∧ ∃ span ∈ spans, spans.filter (·.Holds offset) = [span] := by
  induction spans with
  | nil => exact .inl ⟨by simp [Covered], rfl⟩
  | cons span rest ih =>
    obtain ⟨before, apart⟩ := List.pairwise_cons.mp apart
    rw [covered_cons]
    by_cases here : span.Holds offset
    · have noLater : rest.filter (·.Holds offset) = [] := by
        refine List.filter_eq_nil_iff.mpr fun other member => ?_
        have after := before other member
        rw [decide_eq_true_eq]
        simp only [Span.Holds] at here ⊢
        omega
      exact .inr ⟨.inl here, span, List.mem_cons_self,
        by rw [List.filter_cons_of_pos (by simpa using here), noLater]⟩
    · rw [List.filter_cons_of_neg (by simpa using here)]
      rcases ih apart with ⟨uncovered, none⟩ | ⟨covered, other, member, one⟩
      · exact .inl ⟨not_or.mpr ⟨here, uncovered⟩, none⟩
      · exact .inr ⟨.inr covered, other, List.mem_cons_of_mem _ member, one⟩

/-- Something is left of a span exactly if it has a byte that is not in the runs. -/
theorem liveSpans_isEmpty {offsets : List Nat} {dead : List Span} (runs : Runs offsets dead)
    (span : Span) :
    (liveSpans span dead).isEmpty = false ↔ ∃ offset, span.Holds offset ∧ offset ∉ offsets := by
  rw [List.isEmpty_eq_false_iff_exists_mem]
  constructor
  · rintro ⟨piece, member⟩
    have filled := (pieceOf_liveSpans member).nonempty
    exact ⟨piece.start, (covered_liveSpans runs span _).mp ⟨piece, member, Nat.le_refl _, filled⟩⟩
  · rintro ⟨offset, outside⟩
    obtain ⟨piece, member, -⟩ := (covered_liveSpans runs span offset).mpr outside
    exact ⟨piece, member⟩

end Assembly

end ClassWeave
