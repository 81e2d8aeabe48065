import ClassWeave.Hook.SpecFile
import ClassWeave.Proofs.Text.Words

/-!
# The text of spec files

A spec is written as a line for its class, one for its interface and two for each target. How these
lines are laid out is left open: blanks may stand around words, a comment behind them, and lines
without words anywhere. The words of a text do not depend on its layout.
-/

namespace ClassWeave

def CallSite.words (call : CallSite) : List String :=
  [call.owner.text, call.name.text, call.descriptor.render]

def slotWord (slot : UInt16) : String := slot.toNat.repr

namespace TriggerShape

/-- The word that tells the shape. -/
def keyword : TriggerShape → String
  | entry _ => "entry"
  | entrySelect _ _ _ => "entry-select"
  | callBranch _ => "call-branch"
  | callResult _ => "call-result"
  | aggregate _ _ _ => "aggregate"
  | cache _ _ _ => "cache"

/-- The words after the one that tells the shape. -/
def arguments : TriggerShape → List String
  | entry slot => [slotWord slot]
  | entrySelect slot ifTrue ifFalse =>
    [slotWord slot, ifTrue.owner.text, ifTrue.name.text, ifFalse.name.text, ifTrue.type.render]
  | callBranch call => call.words
  | callResult call => call.words
  | aggregate call chunkOwner chunkMethod => call.words ++ [chunkOwner.text, chunkMethod.text]
  | cache call field referenceClass =>
    call.words ++ [field.owner.text, field.name.text, referenceClass.text]

/-- Do the words tell all of the shape? They have one owner and one type for the two fields that are
selected from, and none for the type of a field that answers are cached in. -/
def Expressible : TriggerShape → Prop
  | entrySelect _ ifTrue ifFalse => ifTrue.owner = ifFalse.owner ∧ ifTrue.type = ifFalse.type
  | cache _ field _ => field.type = cacheFieldType
  | _ => True

end TriggerShape

/-- The words of a target line and of the line with its arguments. -/
def Target.lines (target : Target) : List (List String) :=
  ["target" :: target.name.text :: target.descriptor.render :: target.shape.keyword ::
      target.shape.arguments,
    "args" :: target.argumentSlots.map slotWord]

def InterfaceMethod.line (interface : InterfaceMethod) : List String :=
  ["interface", interface.owner.toDotted, interface.name.text, interface.descriptor.render]

/-- The words of all lines of a block. -/
def ClassSpec.lines (block : ClassSpec) : List (List String) :=
  ["class", block.className.text] :: block.spec.interface.line ::
    block.spec.targets.flatMap Target.lines

/-- Is a text free of blanks and hash marks, so that it can stand as one word? -/
def IsPlain (text : String) : Prop := ∀ c ∈ text.toList, Text.isBlank c = false ∧ c ≠ '#'

instance (text : String) : Decidable (IsPlain text) :=
  List.decidableBAll _ text.toList

/-- Blanks that stay on their line. -/
def IsGap (gap : List Char) : Prop := ∀ c ∈ gap, Text.isBlank c = true ∧ c ≠ '\n'

theorem IsGap.isBlank {gap : List Char} (isGap : IsGap gap) : ∀ c ∈ gap, Text.isBlank c = true :=
  fun c member => (isGap c member).1

instance (gap : List Char) : Decidable (IsGap gap) := List.decidableBAll _ gap

/-- One way to write words on a line: each word with the blanks before it, the blanks after the last
word, and the text of a comment if there is one. -/
structure LineLayout where
  pieces : List (List Char × String)
  trailing : List Char
  comment : Option (List Char)
  gaps : ∀ piece ∈ pieces, IsGap piece.1
  /-- Blanks are needed between two words, but not before the first. -/
  apart : ∀ piece ∈ pieces.tail, piece.1 ≠ []
  trailing_gap : IsGap trailing
  comment_line : ∀ text, comment = some text → '\n' ∉ text

namespace LineLayout

/-- Words with the blanks before the first, between each two, and before a comment, if any. -/
def spaced (indent gap trailing : List Char) (gaps : IsGap indent ∧ IsGap gap ∧ IsGap trailing)
    (apart : gap ≠ []) (words : List String) : LineLayout where
  pieces :=
    match words with
    | [] => []
    | word :: words => (indent, word) :: words.map ((gap, ·))
  trailing := trailing
  comment := none
  gaps := by
    intro piece member
    cases words with
    | nil => cases member
    | cons word words =>
      rcases List.mem_cons.mp member with rfl | later
      · exact gaps.1
      · obtain ⟨_, -, rfl⟩ := List.mem_map.mp later
        exact gaps.2.1
  apart := by
    intro piece member
    cases words with
    | nil => cases member
    | cons word words =>
      obtain ⟨_, -, rfl⟩ := List.mem_map.mp member
      exact apart
  trailing_gap := gaps.2.2
  comment_line := nofun

def words (line : LineLayout) : List String := line.pieces.map (·.2)

/-- The part of the line before a comment. -/
def front (line : LineLayout) : List Char :=
  line.pieces.flatMap (fun piece => piece.1 ++ piece.2.toList) ++ line.trailing

def chars (line : LineLayout) : List Char :=
  line.front ++ match line.comment with
    | none => []
    | some text => '#' :: text

/-- Lines with a line feed between each two of them. -/
def text (lines : List LineLayout) : String :=
  String.ofList (['\n'].intercalate (lines.map chars))

/-- Words that are kept apart by blanks are told apart. -/
theorem words_pieces {pieces : List (List Char × String)} {trailing : List Char}
    (gaps : ∀ piece ∈ pieces, IsGap piece.1) (apart : ∀ piece ∈ pieces.tail, piece.1 ≠ [])
    (trailingGap : IsGap trailing) (plain : ∀ piece ∈ pieces, piece.2 ≠ "" ∧ IsPlain piece.2) :
    Text.words (pieces.flatMap (fun piece => piece.1 ++ piece.2.toList) ++ trailing) =
      pieces.map (·.2.toList) := by
  induction pieces with
  | nil =>
    rw [← List.append_nil trailing, List.flatMap_nil, List.nil_append,
      Text.words_blanks_append (trailingGap.isBlank)]
    rfl
  | cons piece pieces ih =>
    obtain ⟨gap, gaps⟩ := List.forall_mem_cons.mp gaps
    obtain ⟨⟨nonempty, isPlain⟩, plain⟩ := List.forall_mem_cons.mp plain
    rw [List.tail_cons] at apart
    have later := ih gaps (fun other member => apart other (List.mem_of_mem_tail member)) plain
    -- what follows the word starts with the blanks of the next piece or with the trailing ones
    have starts : ∀ c ∈ (pieces.flatMap (fun piece => piece.1 ++ piece.2.toList)
        ++ trailing).head?, Text.isBlank c = true := by
      intro c first
      cases pieces with
      | nil => exact trailingGap.isBlank c (List.mem_of_mem_head? first)
      | cons next pieces =>
        obtain ⟨blank, gap', nextGap⟩ := List.exists_cons_of_ne_nil (apart next List.mem_cons_self)
        simp only [List.flatMap_cons, nextGap, List.cons_append, List.head?_cons,
          Option.mem_some_iff] at first
        subst first
        exact (gaps next List.mem_cons_self blank (by simp [nextGap])).1
    rw [List.flatMap_cons, List.append_assoc, List.append_assoc,
      Text.words_blanks_append (gap.isBlank), Text.words_append starts,
      Text.words_letters (by simpa using nonempty) (fun c member => (isPlain c member).1), later]
    rfl

variable {line : LineLayout}

theorem mem_front {c : Char} (member : c ∈ line.front) :
    Text.isBlank c = true ∧ c ≠ '\n' ∨ ∃ word ∈ line.words, c ∈ word.toList := by
  rcases List.mem_append.mp member with inPieces | inTrailing
  · obtain ⟨piece, isPiece, member⟩ := List.mem_flatMap.mp inPieces
    rcases List.mem_append.mp member with inGap | inWord
    · exact .inl (line.gaps piece isPiece c inGap)
    · exact .inr ⟨piece.2, List.mem_map_of_mem isPiece, inWord⟩
  · exact .inl (line.trailing_gap c inTrailing)

theorem front_ne_hash (plain : ∀ word ∈ line.words, IsPlain word) {c : Char}
    (member : c ∈ line.front) : c ≠ '#' := by
  rcases mem_front member with ⟨blank, -⟩ | ⟨word, isWord, inside⟩
  · rintro rfl
    exact absurd blank (by decide)
  · exact (plain word isWord c inside).2

theorem front_ne_lineFeed (plain : ∀ word ∈ line.words, IsPlain word) {c : Char}
    (member : c ∈ line.front) : c ≠ '\n' := by
  rcases mem_front member with ⟨-, other⟩ | ⟨word, isWord, inside⟩
  · exact other
  · rintro rfl
    exact absurd (plain word isWord _ inside).1 (by decide)

/-- A comment starts at the first hash mark of the line. -/
theorem takeWhile_chars (plain : ∀ word ∈ line.words, IsPlain word) :
    line.chars.takeWhile (· != '#') = line.front := by
  have noHash : ∀ c ∈ line.front, (c != '#') = true := fun c member =>
    bne_iff_ne.mpr (front_ne_hash plain member)
  rw [chars, List.takeWhile_append_of_pos noHash]
  cases line.comment <;> simp

theorem lineFeed_not_mem_chars (plain : ∀ word ∈ line.words, IsPlain word) :
    '\n' ∉ line.chars := by
  have notInFront : '\n' ∉ line.front := fun member => front_ne_lineFeed plain member rfl
  unfold chars
  split
  · simpa using notInFront
  · rename_i text commented
    simp [notInFront, line.comment_line text commented]

theorem lineWords_chars (plain : ∀ word ∈ line.words, word ≠ "" ∧ IsPlain word) :
    SpecReading.lineWords line.chars = line.words := by
  have separate := words_pieces line.gaps line.apart line.trailing_gap
    (fun piece member => plain piece.2 (List.mem_map_of_mem member))
  rw [SpecReading.lineWords, takeWhile_chars fun word member => (plain word member).2, front,
    separate, words, List.map_map]
  exact List.map_congr_left fun piece _ => String.ofList_toList

end LineLayout

namespace SpecFile

theorem linesFrom_eq (current text : List Char) :
    linesFrom current text = (text.splitOn '\n').modifyHead (current.reverse ++ ·) := by
  induction text generalizing current with
  | nil => simp [linesFrom]
  | cons c text ih =>
    rw [linesFrom, List.splitOn, List.splitOnP_cons_eq_if_modifyHead]
    split
    · rw [ih, List.modifyHead_cons, List.append_nil]
      exact congrArg _ (congrFun List.modifyHead_id _)
    · rw [ih, List.modifyHead_modifyHead]
      simp [List.splitOn, Function.comp_def]

/-- Lines are what stands between line feeds. -/
theorem linesFrom_nil (text : List Char) : linesFrom [] text = text.splitOn '\n' :=
  (linesFrom_eq [] text).trans (congrFun List.modifyHead_id _)

end SpecFile

/-- The lines that have words are those of the layouts that have words. -/
theorem LineLayout.words_text {lines : List LineLayout}
    (plain : ∀ line ∈ lines, ∀ word ∈ line.words, word ≠ "" ∧ IsPlain word) :
    ((SpecFile.linesFrom [] (text lines).toList).map SpecReading.lineWords).filter (· ≠ []) =
      (lines.map words).filter (· ≠ []) := by
  rw [SpecFile.linesFrom_nil, text, String.toList_ofList]
  by_cases empty : lines = []
  · subst empty
    decide
  · rw [List.splitOn_intercalate '\n' _ (by simpa using empty), List.map_map]
    · congr 1
      exact List.map_congr_left fun line member => lineWords_chars (plain line member)
    · intro chars isLine
      obtain ⟨line, member, rfl⟩ := List.mem_map.mp isLine
      exact lineFeed_not_mem_chars fun word isWord => (plain line member word isWord).2

end ClassWeave
