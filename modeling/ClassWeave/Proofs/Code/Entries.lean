import Mathlib.Tactic.Tauto
import ClassWeave.Code.Assembly
import ClassWeave.Proofs.Outcome

/-!
# Entries of a stack map

Entries record distances. Adding these up leads back to the offsets that the entries were made for,
which come in ascending order and once each.
-/

namespace ClassWeave

open PoolM (Yields)

namespace Offsets

private theorem foldl_keep {rest kept : List Nat} {last : Nat}
    (ordered : (last :: rest).Pairwise (· ≤ ·)) (descending : kept.Pairwise (· > ·))
    (head : kept.head? = some last) :
    let result := (rest.foldl (fun (kept : List Nat × Nat) next =>
      if next == kept.2 then kept else (next :: kept.1, next)) (kept, last)).1
    result.Pairwise (· > ·) ∧ ∀ offset, offset ∈ result ↔ offset ∈ kept ∨ offset ∈ rest := by
  induction rest generalizing kept last with
  | nil => simpa using descending
  | cons next rest ih =>
    obtain ⟨below, laterOrdered⟩ := List.pairwise_cons.mp ordered
    obtain ⟨tail, rfl⟩ := List.head?_eq_some_iff.mp head
    rw [List.foldl_cons]
    by_cases same : next = last
    · obtain ⟨sorted, members⟩ := ih (same ▸ laterOrdered) descending head
      rw [if_pos (by simp [same])]
      refine ⟨sorted, fun offset => ?_⟩
      rw [members, same, List.mem_cons, List.mem_cons]
      tauto
    · have above : last < next := Nat.lt_of_le_of_ne (below next List.mem_cons_self) (Ne.symm same)
      have extended : (next :: last :: tail).Pairwise (· > ·) := by
        refine List.pairwise_cons.mpr ⟨fun earlier member => ?_, descending⟩
        rcases List.mem_cons.mp member with rfl | member
        · exact above
        · exact Nat.lt_trans ((List.pairwise_cons.mp descending).1 earlier member) above
      obtain ⟨sorted, members⟩ := ih laterOrdered extended rfl
      rw [if_neg (by simp [same])]
      refine ⟨sorted, fun offset => ?_⟩
      rw [members, List.mem_cons, List.mem_cons, List.mem_cons]
      tauto

theorem pairwise_mergeSort_le (offsets : List Nat) : offsets.mergeSort.Pairwise (· ≤ ·) := by
  have trans (a b c : Nat) (first : decide (a ≤ b) = true) (second : decide (b ≤ c) = true) :
      decide (a ≤ c) = true := by
    rw [decide_eq_true_eq] at *
    exact Nat.le_trans first second
  have total (a b : Nat) : (decide (a ≤ b) || decide (b ≤ a)) = true := by
    rw [Bool.or_eq_true, decide_eq_true_eq, decide_eq_true_eq]
    exact Nat.le_total a b
  exact (List.pairwise_mergeSort trans total offsets).imp of_decide_eq_true

private theorem dropRepeats_spec {offsets : List Nat} (ordered : offsets.Pairwise (· ≤ ·)) :
    (dropRepeats offsets).Pairwise (· < ·) ∧
      ∀ offset, offset ∈ dropRepeats offsets ↔ offset ∈ offsets := by
  cases offsets with
  | nil => exact ⟨.nil, fun _ => Iff.rfl⟩
  | cons first rest =>
    obtain ⟨descending, members⟩ := foldl_keep ordered (List.pairwise_singleton _ first) rfl
    refine ⟨List.pairwise_reverse.mpr descending, fun offset => ?_⟩
    rw [dropRepeats, List.mem_reverse, members, List.mem_singleton, List.mem_cons]

/-- Offsets come in ascending order and once each. -/
theorem sorted_ascending (offsets : List Nat) : (sorted offsets).Pairwise (· < ·) :=
  (dropRepeats_spec (pairwise_mergeSort_le offsets)).1

theorem mem_sorted {offsets : List Nat} {offset : Nat} :
    offset ∈ sorted offsets ↔ offset ∈ offsets := by
  rw [sorted, (dropRepeats_spec (pairwise_mergeSort_le offsets)).2, List.mem_mergeSort]

end Offsets

namespace StackMapEntry

def delta : StackMapEntry → UInt16
  | same delta | sameOneStack delta _ | chop delta _ | append delta _ | full delta _ _ => delta

/-- The offset of an entry, given the one before it. -/
def offsetAfter (previous : Option Nat) (entry : StackMapEntry) : Nat :=
  match previous with
  | none => entry.delta.toNat
  | some previous => previous + entry.delta.toNat + 1

/-- The offsets that entries are for, told by their distances. -/
def offsetsFrom (previous : Option Nat) : List StackMapEntry → List Nat
  | [] => []
  | entry :: rest =>
    entry.offsetAfter previous :: offsetsFrom (some (entry.offsetAfter previous)) rest

end StackMapEntry

theorem StoredFrame.entryAfter_delta (frame previous : StoredFrame) (delta : UInt16) :
    (frame.entryAfter previous delta).delta = delta := by
  unfold entryAfter
  simp only
  split
  · split
    · rfl
    · split
      · rfl
      · split <;> rfl
  · split <;> rfl
  · rfl

namespace Assembly

theorem deltaAfter_offset {previous : Option Nat} {offset : Nat} {entry : StackMapEntry}
    (above : ∀ earlier ∈ previous, earlier < offset) (fits : offset ≤ 65535)
    (delta : entry.delta = deltaAfter previous offset) : entry.offsetAfter previous = offset := by
  unfold StackMapEntry.offsetAfter
  rw [delta]
  cases previous with
  | none =>
    exact UInt16.toNat_ofNat_of_lt (Nat.lt_succ_of_le fits)
  | some earlier =>
    have ahead := above earlier rfl
    have small : offset - earlier - 1 < 65536 := by omega
    change earlier + (UInt16.ofNat (offset - earlier - 1)).toNat + 1 = offset
    rw [UInt16.toNat_ofNat_of_lt' small]
    omega

/-- There is a frame for a place that needs one. -/
def HasFrame (typing : Typing) : FrameSource → Prop
  | .dead => True
  | .item position => typing.isReachable position = true

/-- A place with a frame gets an entry. -/
theorem stackMapEntries_cons {typing : Typing} {itemOffset : Nat → UInt16}
    {deadFrame previousFrame : StoredFrame} {seen : List StackMapEntry} {previous : Option Nat}
    {offset : Nat} {source : FrameSource} {rest : List (Nat × FrameSource)} {before after : Pool}
    {entries : List StackMapEntry} (framed : HasFrame typing source)
    (done : Yields (stackMapEntries typing itemOffset deadFrame seen previous previousFrame
      ((offset, source) :: rest)) before entries after) :
    ∃ frame middle, Yields (stackMapEntries typing itemOffset deadFrame
      (StoredFrame.entryAfter frame previousFrame (deltaAfter previous offset) :: seen)
      (some offset) frame rest) middle entries after := by
  cases source with
  | dead =>
    rw [stackMapEntries] at done
    obtain ⟨_, middle, dead, later⟩ := PoolM.yields_bind.mp done
    obtain ⟨rfl, -⟩ := PoolM.yields_pure.mp dead
    exact ⟨deadFrame, middle, later⟩
  | item position =>
    obtain ⟨inferred, inferredFound⟩ := Option.isSome_iff_exists.mp framed
    rw [stackMapEntries, inferredFound] at done
    obtain ⟨_, middle, stored, later⟩ := PoolM.yields_bind.mp done
    obtain ⟨frame, -, rfl⟩ := PoolM.yields_map.mp stored
    exact ⟨frame, middle, later⟩

/-- The entries are for the places that there are frames for. -/
theorem stackMapEntries_offsets {typing : Typing} {itemOffset : Nat → UInt16}
    {deadFrame previousFrame : StoredFrame} {seen : List StackMapEntry} {previous : Option Nat}
    {sources : List (Nat × FrameSource)} {before after : Pool} {entries : List StackMapEntry}
    (done : Yields (stackMapEntries typing itemOffset deadFrame seen previous previousFrame sources)
      before entries after)
    (ascending : (sources.map Prod.fst).Pairwise (· < ·))
    (above : ∀ source ∈ sources, ∀ earlier ∈ previous, earlier < source.1)
    (fits : ∀ source ∈ sources, source.1 ≤ 65535)
    (framed : ∀ source ∈ sources, HasFrame typing source.2) :
    ∃ added, entries = seen.reverse ++ added ∧
      StackMapEntry.offsetsFrom previous added = sources.map Prod.fst := by
  induction sources generalizing seen previous previousFrame before with
  | nil =>
    obtain ⟨rfl, -⟩ := PoolM.yields_pure.mp done
    exact ⟨[], by simp, rfl⟩
  | cons source rest ih =>
    obtain ⟨offset, kind⟩ := source
    obtain ⟨frame, middle, later⟩ :=
      stackMapEntries_cons (framed (offset, kind) List.mem_cons_self) done
    obtain ⟨first, ascending⟩ := List.pairwise_cons.mp ascending
    obtain ⟨added, rfl, offsets⟩ := ih later ascending
      (fun source member earlier isPrevious => by
        cases isPrevious
        exact first source.1 (List.mem_map_of_mem member))
      (fun source member => fits source (List.mem_cons_of_mem _ member))
      (fun source member => framed source (List.mem_cons_of_mem _ member))
    refine ⟨frame.entryAfter previousFrame (deltaAfter previous offset) :: added, by simp, ?_⟩
    have here := deltaAfter_offset (above (offset, kind) List.mem_cons_self)
      (fits (offset, kind) List.mem_cons_self) (frame.entryAfter_delta previousFrame _)
    rw [StackMapEntry.offsetsFrom, here, offsets]
    rfl

private theorem foldl_insertIfNew (parts : List Placed) (table : Std.HashMap Nat Nat)
    (offset : Nat) :
    (parts.foldl (fun table part => table.insertIfNew part.offset part.position) table)[offset]? =
      table[offset]?.or ((parts.find? (·.offset == offset)).map Placed.position) := by
  induction parts generalizing table with
  | nil => simp
  | cons part rest ih =>
    rw [List.foldl_cons, ih, Std.HashMap.getElem?_insertIfNew, List.find?_cons]
    by_cases same : part.offset = offset
    · subst same
      by_cases known : part.offset ∈ table
      · simp [known]
      · simp [known]
    · simp [beq_false_of_ne same]

/-- The places that need an entry, found without tables. -/
theorem frameSources_eq (placed : List Placed) (dead : List Span) (offsets : List Nat) :
    frameSources placed dead offsets =
      (Offsets.sorted (dead.map Span.start ++ offsets)).filterMap fun offset =>
        if offset ∈ dead.map Span.start then some (offset, .dead)
        else ((placed.filter fun part => part.item.isCode).find? (·.offset == offset)).map
          fun part => (offset, .item part.position) := by
  simp only [frameSources, foldl_insertIfNew, Std.HashSet.contains_ofList, List.contains_iff_mem]
  simp [Function.comp_def]

/-- The places come in ascending order. -/
theorem frameSources_ascending (placed : List Placed) (dead : List Span) (offsets : List Nat) :
    ((frameSources placed dead offsets).map Prod.fst).Pairwise (· < ·) := by
  rw [frameSources_eq, List.pairwise_map, List.pairwise_filterMap]
  refine (Offsets.sorted_ascending _).imp fun {a b} below first firstFound second secondFound => ?_
  have kept {offset : Nat} {source : Nat × FrameSource}
      (found : (if offset ∈ dead.map Span.start then some (offset, FrameSource.dead)
        else ((placed.filter fun part => part.item.isCode).find? (·.offset == offset)).map
          fun part => (offset, .item part.position)) = some source) : source.1 = offset := by
    split at found
    · cases found
      rfl
    · obtain ⟨_, -, rfl⟩ := Option.map_eq_some_iff.mp found
      rfl
  rwa [kept firstFound, kept secondFound]

/-- Each place is the start of dead code, or an instruction at one of the offsets. -/
theorem of_mem_frameSources {placed : List Placed} {dead : List Span} {offsets : List Nat}
    {source : Nat × FrameSource} (member : source ∈ frameSources placed dead offsets) :
    source.1 ∈ dead.map Span.start ∧ source.2 = .dead ∨
    source.1 ∈ offsets ∧ ∃ part ∈ placed, part.item.isCode = true ∧ part.offset = source.1 ∧
      source.2 = .item part.position := by
  rw [frameSources_eq, List.mem_filterMap] at member
  obtain ⟨offset, listed, found⟩ := member
  split at found
  · rename_i isStart
    cases found
    exact .inl ⟨isStart, rfl⟩
  · rename_i notStart
    obtain ⟨part, partFound, rfl⟩ := Option.map_eq_some_iff.mp found
    have chosen := List.find?_some partFound
    obtain ⟨partMember, isCode⟩ := List.mem_filter.mp (List.mem_of_find?_eq_some partFound)
    refine .inr ⟨?_, part, partMember, isCode, by simpa using chosen, rfl⟩
    exact (List.mem_append.mp (Offsets.mem_sorted.mp listed)).resolve_left notStart

/-- All starts of dead code need an entry. -/
theorem mem_frameSources_dead {placed : List Placed} {dead : List Span} {offsets : List Nat}
    {offset : Nat} (isStart : offset ∈ dead.map Span.start) :
    offset ∈ (frameSources placed dead offsets).map Prod.fst := by
  rw [frameSources_eq, List.mem_map]
  refine ⟨(offset, .dead), List.mem_filterMap.mpr ⟨offset, ?_, if_pos isStart⟩, rfl⟩
  exact Offsets.mem_sorted.mpr (List.mem_append_left _ isStart)

/-- All instructions at the offsets need an entry. -/
theorem mem_frameSources_item {placed : List Placed} {dead : List Span} {offsets : List Nat}
    {part : Placed} (member : part ∈ placed) (isCode : part.item.isCode = true)
    (listed : part.offset ∈ offsets) :
    part.offset ∈ (frameSources placed dead offsets).map Prod.fst := by
  by_cases isStart : part.offset ∈ dead.map Span.start
  · exact mem_frameSources_dead isStart
  · obtain ⟨found, isFound⟩ : ∃ found, (placed.filter fun part => part.item.isCode).find?
        (·.offset == part.offset) = some found := by
      rw [← Option.isSome_iff_exists, List.find?_isSome]
      exact ⟨part, List.mem_filter.mpr ⟨member, isCode⟩, beq_self_eq_true _⟩
    rw [frameSources_eq, List.mem_map]
    refine ⟨(part.offset, .item found.position),
      List.mem_filterMap.mpr ⟨part.offset, Offsets.mem_sorted.mpr (List.mem_append_right _ listed),
        ?_⟩, rfl⟩
    rw [if_neg isStart, isFound]
    rfl

end Assembly

end ClassWeave
