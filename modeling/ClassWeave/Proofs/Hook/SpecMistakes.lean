import Mathlib.Data.List.Induction
import ClassWeave.Proofs.Descriptor.Exactness
import ClassWeave.Proofs.Hook.BlockFaults

/-!
# Mistakes in spec files

Reading a spec file stops at its first mistake. A mistake on a line is reported with the number of
this line. That a block cannot be completed shows only behind its last line, and is reported with
the number of the class line that follows, or without a number at the end of the text.
-/

namespace ClassWeave

open Outcome (bind_ok bind_error map_error mapError_error)

theorem Target.ofTexts_ok {name descriptor : String} {shape : TriggerShape} {slots : List UInt16}
    {target : Target} (read : ofTexts name descriptor shape slots = .ok target) :
    target.name.text = name := by
  obtain ⟨_, named, read⟩ := bind_ok.mp read
  obtain ⟨_, -, read⟩ := bind_ok.mp read
  cases read
  exact UnqualifiedName.ofString_ok (Outcome.mapError_ok.mp named)

/-- A line adds to a block of the same class. It leaves the names of the targets alone, or puts one
of its words in front. -/
theorem SpecLine.addTo_ok {block after : SpecBlock} {directive : String} {words : List String}
    (added : addTo block directive words = .ok after) : after.className = block.className ∧
      (after.targets.map (·.name.text) = block.targets.map (·.name.text) ∨
        ∃ name ∈ words, after.targets.map (·.name.text) =
          name :: block.targets.map (·.name.text)) := by
  unfold addTo at added
  split at added
  · split at added
    · split at added
      · cases added
      · cases added
        exact ⟨rfl, .inl rfl⟩
    · cases added
  · split at added
    · obtain ⟨_, -, added⟩ := bind_ok.mp added
      obtain ⟨target, read, added⟩ := bind_ok.mp added
      cases added
      refine ⟨rfl, .inr ⟨_, List.mem_cons_self, ?_⟩⟩
      rw [List.map_cons, Target.ofTexts_ok read]
    · cases added
  · split at added
    · cases added
    · rename_i listed
      obtain ⟨_, -, added⟩ := bind_ok.mp added
      cases added
      exact ⟨rfl, .inl (by rw [listed]; rfl)⟩
  · cases added

namespace SpecReading

variable {reading after : SpecReading} {lines : List (List String)} {words : List String}

/-- A line that is read begins a block behind a complete one, or adds to the block that is there. -/
theorem readWords_ok {directive : String} (done : reading.readWords directive words = .ok after) :
    (directive = "class" ∧ ∃ className : BinaryName, words = [className.text] ∧
      after.block = some (.start className)) ∨
    (directive ≠ "class" ∧ ∃ block extended, reading.block = some block ∧
      SpecLine.addTo block directive words = .ok extended ∧ after.block = some extended) := by
  unfold readWords at done
  split at done
  · rename_i isClass
    split at done
    · obtain ⟨specs, -, done⟩ := bind_ok.mp done
      obtain ⟨className, named, done⟩ := bind_ok.mp done
      cases done
      rw [← BinaryName.ofString_ok (Outcome.mapError_ok.mp named)]
      exact .inl ⟨isClass, className, rfl, rfl⟩
    · cases done
  · rename_i other
    split at done
    · cases done
    · rename_i block isBlock
      obtain ⟨extended, added, done⟩ := bind_ok.mp done
      cases done
      exact .inr ⟨other, block, extended, isBlock, added, rfl⟩

/-- The names of the targets that have been read are one word each. -/
def OneWord (reading : SpecReading) : Prop :=
  ∀ block, reading.block = some block → ∀ name ∈ block.targets.map (·.name.text), ' ' ∉ name.toList

theorem OneWord.readLine (oneWord : reading.OneWord) (plain : ∀ word ∈ words, ' ' ∉ word.toList)
    (done : reading.readLine words = .ok after) : after.OneWord := by
  rcases words with _ | ⟨directive, words⟩
  · cases done
    exact oneWord
  intro block isBlock name member
  rcases readWords_ok done with
    ⟨-, className, -, begun⟩ | ⟨-, before, extended, current, added, kept⟩
  · cases isBlock.symm.trans begun
    cases member
  · cases isBlock.symm.trans kept
    rcases (SpecLine.addTo_ok added).2 with same | ⟨first, isWord, same⟩
    · exact oneWord before current name (same ▸ member)
    · rcases List.mem_cons.mp (same ▸ member) with rfl | earlier
      · exact plain name (List.mem_cons_of_mem directive isWord)
      · exact oneWord before current name earlier

theorem OneWord.readLines (oneWord : reading.OneWord)
    (plain : ∀ words ∈ lines, ∀ word ∈ words, ' ' ∉ word.toList)
    (done : lines.foldlM SpecReading.readLine reading = .ok after) : after.OneWord := by
  induction lines generalizing reading with
  | nil =>
    cases done
    exact oneWord
  | cons words lines ih =>
    obtain ⟨first, plain⟩ := List.forall_mem_cons.mp plain
    rw [List.foldlM_cons] at done
    obtain ⟨middle, lineRead, done⟩ := bind_ok.mp done
    exact ih (oneWord.readLine first lineRead) plain done

theorem readLines_cons (number : Nat) (line : List Char) (rest : List (List Char)) :
    reading.readLines number (line :: rest) =
      (reading.readLine (lineWords line)).mapError (.atLine number) >>=
        fun after => after.readLines (number + 1) rest := by
  rw [readLines]
  cases lineWords line <;> rfl

variable {chars : List (List Char)} {number : Nat}

theorem foldlM_of_readLines (done : reading.readLines number chars = .ok after) :
    (chars.map lineWords).foldlM SpecReading.readLine reading = .ok after := by
  induction chars generalizing reading number with
  | nil => exact done
  | cons line rest ih =>
    rw [readLines_cons] at done
    obtain ⟨middle, lineRead, done⟩ := bind_ok.mp done
    rw [List.map_cons, List.foldlM_cons]
    exact bind_ok.mpr ⟨middle, Outcome.mapError_ok.mp lineRead, ih done⟩

/-- A fault tells the number of the line at which reading stops. -/
theorem readLines_error_iff {fault : SpecFault} :
    reading.readLines number chars = .error fault ↔ ∃ read line rest middle cause,
      chars.map lineWords = read ++ line :: rest ∧
      read.foldlM SpecReading.readLine reading = .ok middle ∧
      middle.readLine line = .error cause ∧ fault = .atLine (number + read.length) cause := by
  constructor
  · intro failed
    induction chars generalizing reading number with
    | nil => cases failed
    | cons line rest ih =>
      rw [readLines_cons] at failed
      rcases bind_error.mp failed with here | ⟨middle, lineRead, failed⟩
      · obtain ⟨cause, stops, rfl⟩ := mapError_error.mp here
        exact ⟨[], lineWords line, rest.map lineWords, reading, cause, rfl, rfl, stops, rfl⟩
      · obtain ⟨read, stop, later, reached, cause, split, done, stops, rfl⟩ := ih failed
        refine ⟨lineWords line :: read, stop, later, reached, cause, ?_, ?_, stops, ?_⟩
        · rw [List.map_cons, split, List.cons_append]
        · rw [List.foldlM_cons]
          exact bind_ok.mpr ⟨middle, Outcome.mapError_ok.mp lineRead, done⟩
        · rw [List.length_cons, Nat.add_right_comm, Nat.add_assoc]
  · rintro ⟨read, stop, later, reached, cause, split, done, stops, rfl⟩
    induction read generalizing reading number chars with
    | nil =>
      obtain ⟨line, rest, rfl, rfl, -⟩ := List.map_eq_cons_iff.mp split
      cases done
      rw [readLines_cons]
      exact bind_error.mpr (.inl (mapError_error.mpr ⟨cause, stops, rfl⟩))
    | cons words read ih =>
      obtain ⟨line, rest, rfl, rfl, splitRest⟩ := List.map_eq_cons_iff.mp split
      rw [List.foldlM_cons] at done
      obtain ⟨middle, lineRead, done⟩ := bind_ok.mp done
      rw [readLines_cons, List.length_cons, Nat.add_comm read.length, ← Nat.add_assoc]
      exact bind_error.mpr (.inr ⟨middle, Outcome.mapError_ok.mpr lineRead, ih splitRest done⟩)

/-- A line is refused for what is on it. The words of a class line are counted at once, but its name
is only looked at when the block before it is complete. -/
inductive Refused (reading : SpecReading) : List String → SpecFault → Prop where
  | directive {directive : String} {words : List String} {cause : SpecFault}
      (other : directive ≠ "class") (failed : reading.readWords directive words = .error cause) :
      Refused reading (directive :: words) cause
  | classWords {words : List String} (count : words.length ≠ 1) :
      Refused reading ("class" :: words) (.badLine (.argumentCount "class" 1 words.length))
  | className {name : String} {specs : List ClassSpec} {cause : SpecFault}
      (complete : reading.finishBlock = .ok specs)
      (invalid : SpecFault.checkName (BinaryName.ofString name) = .error cause) :
      Refused reading ["class", name] cause

/-- Reading stops at a line for what is on it, or for the block that it completes. -/
theorem readLine_error_iff {line : List String} {cause : SpecFault} :
    reading.readLine line = .error cause ↔ reading.Refused line cause ∨
      (∃ name, line = ["class", name]) ∧ reading.finishBlock = .error cause := by
  constructor
  · intro failed
    rcases line with _ | ⟨directive, words⟩
    · cases failed
    by_cases isClass : directive = "class"
    · subst isClass
      rcases words with _ | ⟨name, _ | ⟨second, words⟩⟩
      · cases failed
        exact .inl (.classWords (by decide))
      · rw [readLine, readWords, if_pos rfl] at failed
        rcases bind_error.mp failed with incomplete | ⟨specs, complete, failed⟩
        · exact .inr ⟨⟨name, rfl⟩, incomplete⟩
        rcases bind_error.mp failed with invalid | ⟨_, -, done⟩
        · exact .inl (.className complete invalid)
        · cases done
      · cases failed
        exact .inl (.classWords (by simp))
    · exact .inl (.directive isClass failed)
  · rintro (refused | ⟨⟨name, rfl⟩, incomplete⟩)
    · cases refused with
      | directive _ failed => exact failed
      | classWords count =>
        rename_i words
        rcases words with _ | ⟨name, _ | ⟨second, words⟩⟩
        · rfl
        · exact absurd rfl count
        · rfl
      | className complete invalid =>
        rw [readLine, readWords, if_pos rfl]
        exact bind_error.mpr (.inr ⟨_, complete, bind_error.mpr (.inl invalid)⟩)
    · rw [readLine, readWords, if_pos rfl]
      exact bind_error.mpr (.inl incomplete)

/-- A line that is refused does not follow a block that cannot be completed. -/
theorem Refused.not_incomplete {name : String} {cause fault : SpecFault}
    (refused : reading.Refused ["class", name] cause) : reading.finishBlock ≠ .error fault := by
  intro incomplete
  generalize line : ["class", name] = words at refused
  cases refused with
  | directive other _ => exact other (List.cons.inj line).1.symm
  | classWords count =>
    rw [← (List.cons.inj line).2] at count
    exact count rfl
  | className complete _ => cases incomplete.symm.trans complete

/-- The lines are read without fault, from the first one on. -/
def Reads (lines : List (List String)) (reading : SpecReading) : Prop :=
  lines.foldlM readLine ⟨none, []⟩ = .ok reading

/-- Is the last class line that of the block? -/
def EndWith (lines : List (List String)) (block : SpecBlock) : Prop :=
  ∃ before inside, lines = before ++ ["class", block.className.text] :: inside ∧
    ∀ line ∈ inside, line.head? ≠ some "class"

/-- The block that is being read is the one that began last. -/
theorem Reads.endWith {block : SpecBlock} (reads : Reads lines reading)
    (isBlock : reading.block = some block) : EndWith lines block := by
  induction lines using List.reverseRecOn generalizing reading block with
  | nil =>
    cases reads
    cases isBlock
  | append_singleton lines line ih =>
    rw [Reads, List.foldlM_append] at reads
    obtain ⟨middle, reads, done⟩ := bind_ok.mp reads
    rw [List.foldlM_cons] at done
    obtain ⟨_, done, last⟩ := bind_ok.mp done
    cases last
    -- any line but a class line stays in the block that was being read before it
    have behind {earlier : SpecBlock} (current : middle.block = some earlier)
        (same : block.className = earlier.className) (other : line.head? ≠ some "class") :
        EndWith (lines ++ [line]) block := by
      obtain ⟨before, inside, split, others⟩ := ih reads current
      refine ⟨before, inside ++ [line], ?_, ?_⟩
      · rw [split, same, List.append_assoc, List.cons_append]
      · exact List.forall_mem_append.mpr ⟨others, by simpa using other⟩
    rcases line with _ | ⟨directive, words⟩
    · cases done
      exact behind isBlock rfl nofun
    rcases readWords_ok done with
      ⟨rfl, className, rfl, begun⟩ | ⟨other, earlier, extended, current, added, kept⟩
    · cases isBlock.symm.trans begun
      exact ⟨lines, [], rfl, nofun⟩
    · cases isBlock.symm.trans kept
      exact behind current (SpecLine.addTo_ok added).1 (by simpa using other)

theorem finishBlock_error {cause : SpecFault} (incomplete : reading.finishBlock = .error cause) :
    ∃ block, reading.block = some block ∧ block.finish = .error cause := by
  unfold finishBlock at incomplete
  split at incomplete
  · cases incomplete
  · rename_i block isBlock
    exact ⟨block, isBlock, map_error.mp incomplete⟩

theorem Refused.stops {line : List String} {cause : SpecFault}
    (refused : reading.Refused line cause) : reading.readLine line = .error cause :=
  readLine_error_iff.mpr (.inl refused)

theorem stops_of_incomplete {cause : SpecFault} (incomplete : reading.finishBlock = .error cause)
    (next : String) : reading.readLine ["class", next] = .error cause :=
  readLine_error_iff.mpr (.inr ⟨⟨next, rfl⟩, incomplete⟩)

section Stopping

variable {read readToo rest restToo : List (List String)} {line lineToo : List String}
  {readingToo : SpecReading} {cause causeToo : SpecFault}

theorem Reads.stops_once (reads : Reads read reading) (stops : reading.readLine line = .error cause)
    (readsToo : Reads readToo readingToo) (stopsToo : readingToo.readLine lineToo = .error causeToo)
    (same : read ++ line :: rest = readToo ++ lineToo :: restToo) :
    read = readToo ∧ line = lineToo ∧ reading = readingToo ∧ cause = causeToo :=
  Outcome.foldlM_stops_once same reads stops readsToo stopsToo

theorem Reads.not_reads (reads : Reads read reading)
    (stops : reading.readLine line = .error cause) :
    ¬ Reads (read ++ line :: rest) after := by
  intro readsAll
  cases readsAll.symm.trans (Outcome.foldlM_stopped reads stops rest)

end Stopping

theorem Reads.oneWord (reads : Reads lines reading)
    (plain : ∀ words ∈ lines, ∀ word ∈ words, ' ' ∉ word.toList) : reading.OneWord := by
  have start : OneWord ⟨none, []⟩ := nofun
  exact start.readLines plain reads

end SpecReading

/-- A mistake in the lines of a text. -/
structure SpecMistake where
  /-- The number of the line with the mistake, or of the last line of a block that is incomplete. -/
  line : Nat
  cause : SpecFault
  /-- The number of the line at which reading stops, none if that is behind all lines. -/
  stop : Option Nat

namespace SpecMistake

open SpecReading (stops_of_incomplete)

/-- The fault that tells of a mistake. -/
def reported (mistake : SpecMistake) : SpecFault :=
  match mistake.stop with
  | some number => .atLine number mistake.cause
  | none => mistake.cause

/-- Does reading go on behind the line with the mistake? -/
def IsLate (mistake : SpecMistake) : Prop := mistake.stop ≠ some mistake.line

/-- Lines are numbered from one. What comes before the mistake is read without fault. -/
inductive IsIn (lines : List (List String)) : SpecMistake → Prop where
  | onLine {read rest : List (List String)} {line : List String} {reading : SpecReading}
      {cause : SpecFault} (split : lines = read ++ line :: rest)
      (reads : SpecReading.Reads read reading) (refused : reading.Refused line cause) :
      IsIn lines ⟨read.length + 1, cause, some (read.length + 1)⟩
  | inBlock {read rest : List (List String)} {next : String} {reading : SpecReading}
      {cause : SpecFault} (split : lines = read ++ ["class", next] :: rest)
      (reads : SpecReading.Reads read reading) (incomplete : reading.finishBlock = .error cause) :
      IsIn lines ⟨read.length, cause, some (read.length + 1)⟩
  | inLastBlock {reading : SpecReading} {cause : SpecFault}
      (reads : SpecReading.Reads lines reading) (incomplete : reading.finishBlock = .error cause) :
      IsIn lines ⟨lines.length, cause, none⟩

variable {lines : List (List String)} {mistake other : SpecMistake}

/-- Reading stops at one mistake. -/
theorem IsIn.unique (isIn : mistake.IsIn lines) (isInToo : other.IsIn lines) : mistake = other := by
  cases isIn with
  | onLine split reads refused =>
    cases isInToo with
    | onLine splitToo readsToo refusedToo =>
      obtain ⟨rfl, -, -, rfl⟩ :=
        reads.stops_once refused.stops readsToo refusedToo.stops (split ▸ splitToo)
      rfl
    | inBlock splitToo readsToo incomplete =>
      -- both stop at this class line, which is looked at only behind a complete block
      have stops := stops_of_incomplete incomplete
      obtain ⟨rfl, rfl, rfl, rfl⟩ :=
        reads.stops_once refused.stops readsToo (stops _) (split ▸ splitToo)
      exact (refused.not_incomplete incomplete).elim
    | inLastBlock readsToo _ => exact (reads.not_reads refused.stops (split ▸ readsToo)).elim
  | inBlock split reads incomplete =>
    have stops := stops_of_incomplete incomplete
    cases isInToo with
    | onLine splitToo readsToo refused =>
      obtain ⟨rfl, rfl, rfl, rfl⟩ :=
        reads.stops_once (stops _) readsToo refused.stops (split ▸ splitToo)
      exact (refused.not_incomplete incomplete).elim
    | inBlock splitToo readsToo incompleteToo =>
      obtain ⟨rfl, -, -, rfl⟩ :=
        reads.stops_once (stops _) readsToo (stops_of_incomplete incompleteToo _) (split ▸ splitToo)
      rfl
    | inLastBlock readsToo _ => exact (reads.not_reads (stops _) (split ▸ readsToo)).elim
  | inLastBlock reads incomplete =>
    cases isInToo with
    | onLine split readsToo refused =>
      exact (readsToo.not_reads refused.stops (split ▸ reads)).elim
    | inBlock split readsToo incompleteToo =>
      exact (readsToo.not_reads (stops_of_incomplete incompleteToo _) (split ▸ reads)).elim
    | inLastBlock readsToo incompleteToo =>
      cases reads.symm.trans readsToo
      cases incomplete.symm.trans incompleteToo
      rfl

/-- A mistake that is late is that of a block which cannot be completed. -/
theorem IsIn.incomplete (isIn : mistake.IsIn lines) (late : mistake.IsLate) :
    ∃ block, SpecReading.EndWith (lines.take mistake.line) block ∧
      block.finish = .error mistake.cause := by
  cases isIn with
  | onLine => exact (late rfl).elim
  | inBlock split reads incomplete =>
    obtain ⟨block, isBlock, incomplete⟩ := SpecReading.finishBlock_error incomplete
    rw [split, List.take_left]
    exact ⟨block, reads.endWith isBlock, incomplete⟩
  | inLastBlock reads incomplete =>
    obtain ⟨block, isBlock, incomplete⟩ := SpecReading.finishBlock_error incomplete
    rw [List.take_length]
    exact ⟨block, reads.endWith isBlock, incomplete⟩

end SpecMistake

namespace SpecFile

/-- The words of each line of a text. -/
def wordLines (text : String) : List (List String) :=
  (linesFrom [] text.toList).map SpecReading.lineWords

theorem space_not_mem_word {text : String} :
    ∀ words ∈ wordLines text, ∀ word ∈ words, ' ' ∉ word.toList := by
  intro words isLine word member
  obtain ⟨line, -, rfl⟩ := List.mem_map.mp isLine
  obtain ⟨letters, isWord, rfl⟩ := List.mem_map.mp member
  rw [String.toList_ofList]
  exact fun space => absurd (Text.mem_words isWord _ space) (by decide)

/-- Reading fails exactly if there is a mistake, and tells of this mistake. -/
theorem parse_error_iff {text : String} {fault : SpecFault} :
    parse text = .error fault ↔
      ∃ mistake : SpecMistake, mistake.IsIn (wordLines text) ∧ fault = mistake.reported := by
  constructor
  · intro failed
    rcases bind_error.mp failed with failed | ⟨reading, done, failed⟩
    · obtain ⟨read, line, rest, middle, cause, split, reads, stops, rfl⟩ :=
        SpecReading.readLines_error_iff.mp failed
      rw [Nat.add_comm]
      rcases SpecReading.readLine_error_iff.mp stops with refused | ⟨⟨next, rfl⟩, incomplete⟩
      · exact ⟨_, .onLine split reads refused, rfl⟩
      · exact ⟨_, .inBlock split reads incomplete, rfl⟩
    · rcases bind_error.mp failed with incomplete | ⟨_, -, finished⟩
      · exact ⟨_, .inLastBlock (SpecReading.foldlM_of_readLines done) incomplete, rfl⟩
      · cases finished
  · rintro ⟨mistake, isIn, rfl⟩
    cases isIn with
    | onLine split reads refused =>
      exact bind_error.mpr (.inl (SpecReading.readLines_error_iff.mpr
        ⟨_, _, _, _, _, split, reads, refused.stops, by rw [Nat.add_comm]; rfl⟩))
    | inBlock split reads incomplete =>
      exact bind_error.mpr (.inl (SpecReading.readLines_error_iff.mpr
        ⟨_, _, _, _, _, split, reads, SpecReading.stops_of_incomplete incomplete _,
          by rw [Nat.add_comm]; rfl⟩))
    | inLastBlock reads incomplete =>
      exact bind_error.mpr (.inr ⟨_, SpecReading.readLines_ok reads 1,
        bind_error.mpr (.inl incomplete)⟩)

/-- The number of class lines up to a line, which tells the block that the line is in. Lines before
the first class line are in none. -/
def blockOf (lines : List (List String)) (number : Nat) : Nat :=
  (lines.take number).countP (·.head? == some "class")

/-- Is the other line in the block of the first, or, if that is in none, the same line? -/
def SharesBlock (lines : List (List String)) (number other : Nat) : Prop :=
  1 ≤ other ∧ other ≤ lines.length ∧ blockOf lines other = blockOf lines number ∧
    (blockOf lines number = 0 → other = number)

/-- A class line is in another block than the line before it. -/
theorem not_sharesBlock_next {read rest : List (List String)} {next : String} :
    ¬ SharesBlock (read ++ ["class", next] :: rest) read.length (read.length + 1) := by
  rintro ⟨-, -, same, -⟩
  have before : (read ++ ["class", next] :: rest).take read.length = read := List.take_left
  have behind : (read ++ ["class", next] :: rest).take (read.length + 1) =
      read ++ [["class", next]] := by
    rw [List.take_length_add_append]
    rfl
  simp [blockOf, before, behind] at same

/-- Does a fault begin with the number of a line in the block of the mistake? -/
def NamesBlock (text : String) (fault : SpecFault) : Prop :=
  ∃ (mistake : SpecMistake) (number : Nat), mistake.IsIn (wordLines text) ∧
    fault.NamesLine number ∧ SharesBlock (wordLines text) mistake.line number

/-- Of a mistake that is late no line of its block is told: the number is that of the next class
line, or there is none. -/
theorem not_late_of_namesLine {mistake : SpecMistake} {lines : List (List String)} {number : Nat}
    (isIn : mistake.IsIn lines) (oneWord : ∀ words ∈ lines, ∀ word ∈ words, ' ' ∉ word.toList)
    (names : mistake.reported.NamesLine number) (shares : SharesBlock lines mistake.line number) :
    ¬ mistake.IsLate := by
  cases isIn with
  | onLine split reads refused => exact fun late => late rfl
  | inBlock split reads incomplete =>
    cases names.unique (SpecFault.atLine_namesLine _ _)
    exact (not_sharesBlock_next (split ▸ shares)).elim
  | inLastBlock reads incomplete =>
    obtain ⟨block, isBlock, incomplete⟩ := SpecReading.finishBlock_error incomplete
    have targets : ∀ target ∈ block.targets, ' ' ∉ target.name.text.toList :=
      fun target member => reads.oneWord oneWord block isBlock _ (List.mem_map_of_mem member)
    exact ((SpecBlock.finish_error incomplete).not_namesLine targets number names).elim

/-- A text that is refused has one mistake, of which the fault tells. The wording begins with the
number of a line in the block of the mistake exactly if the mistake is not late, which is one that
shows only when a block is completed. -/
theorem parse_namesBlock_iff {text : String} {fault : SpecFault}
    (failed : parse text = .error fault) :
    ∃ mistake : SpecMistake, mistake.IsIn (wordLines text) ∧
      (∀ other : SpecMistake, other.IsIn (wordLines text) → other = mistake) ∧
      fault = mistake.reported ∧
      (mistake.IsLate → ∃ block, SpecReading.EndWith ((wordLines text).take mistake.line) block ∧
        block.finish = .error mistake.cause) ∧
      (NamesBlock text fault ↔ ¬ mistake.IsLate) := by
  obtain ⟨mistake, isIn, rfl⟩ := parse_error_iff.mp failed
  refine ⟨mistake, isIn, fun other otherIn => otherIn.unique isIn, rfl, isIn.incomplete, ?_⟩
  constructor
  · rintro ⟨other, number, otherIn, names, shares⟩
    cases otherIn.unique isIn
    exact not_late_of_namesLine isIn space_not_mem_word names shares
  · intro onTime
    cases isIn with
    | onLine split reads refused =>
      refine ⟨_, _, .onLine split reads refused, SpecFault.atLine_namesLine _ _, ?_⟩
      exact ⟨Nat.le_add_left 1 _, by simp [split], rfl, fun _ => rfl⟩
    | inBlock => exact (onTime (by simp [SpecMistake.IsLate])).elim
    | inLastBlock => exact (onTime nofun).elim

end SpecFile

/-- Two blocks, of which the second has a word that is not a slot. -/
def doorText : String :=
  "class app/Gate\ninterface app.IOpen open ()Z\n" ++
  "target state ()Lapp/State; entry-select 0 app/State Open Shut Lapp/State;\nargs # none\n\n" ++
  "class app/Hut\ntarget open ()V entry door\n"

theorem doorText_mistake :
    SpecMistake.IsIn (SpecFile.wordLines doorText) ⟨7, .badLine (.badSlot "door"), some 7⟩ := by
  let hut : BinaryName := ⟨"app/Hut", by decide⟩
  have words : SpecFile.wordLines doorText = (gateBlock.lines ++ [[], ["class", hut.text]]) ++
      ["target", "open", "()V", "entry", "door"] :: [[]] := by decide +kernel
  obtain ⟨after, blockRead, complete⟩ := SpecReading.readLine_block gateBlock_expressible
    (show SpecReading.finishBlock ⟨none, []⟩ = .ok [] from rfl)
  have reads : SpecReading.Reads (gateBlock.lines ++ [[], ["class", hut.text]])
      ⟨some (.start hut), [gateBlock]⟩ := by
    rw [SpecReading.Reads, List.foldlM_append, blockRead]
    exact bind_ok.mpr ⟨after, rfl, bind_ok.mpr ⟨after, rfl,
      bind_ok.mpr ⟨_, SpecReading.readLine_class complete hut, rfl⟩⟩⟩
  exact .onLine words reads (.directive (by decide) rfl)

theorem doorText_namesBlock :
    SpecFile.parse doorText = .error (.atLine 7 (.badLine (.badSlot "door"))) ∧
      SpecFile.NamesBlock doorText (.atLine 7 (.badLine (.badSlot "door"))) := by
  have failed := SpecFile.parse_error_iff.mpr ⟨_, doorText_mistake, rfl⟩
  obtain ⟨mistake, -, only, -, -, names⟩ := SpecFile.parse_namesBlock_iff failed
  cases only _ doorText_mistake
  exact ⟨failed, names.mpr fun late => late rfl⟩

def loneClass : BinaryName := ⟨"a", by decide⟩

theorem loneClass_reads :
    SpecReading.Reads [["class", loneClass.text]] ⟨some (.start loneClass), []⟩ :=
  bind_ok.mpr ⟨_, SpecReading.readLine_class rfl loneClass, rfl⟩

/-- A class line alone is refused without a number, and one that another follows with the number of
the other. -/
theorem loneClass_misnamed :
    (SpecFile.parse "class a" = .error (.badLine (.noInterface loneClass)) ∧
      ¬ SpecFile.NamesBlock "class a" (.badLine (.noInterface loneClass))) ∧
    SpecFile.parse "class a\nclass b" = .error (.atLine 2 (.badLine (.noInterface loneClass))) ∧
      ¬ SpecFile.NamesBlock "class a\nclass b" (.atLine 2 (.badLine (.noInterface loneClass))) := by
  constructor
  · have words : SpecFile.wordLines "class a" = [["class", loneClass.text]] := by decide +kernel
    have isIn : SpecMistake.IsIn (SpecFile.wordLines "class a")
        ⟨1, .badLine (.noInterface loneClass), none⟩ := words ▸ .inLastBlock loneClass_reads rfl
    refine ⟨SpecFile.parse_error_iff.mpr ⟨_, isIn, rfl⟩, ?_⟩
    rintro ⟨_, number, -, names, -⟩
    have incomplete : (SpecBlock.start loneClass).Incomplete (.badLine (.noInterface loneClass)) :=
      .noInterface
    exact incomplete.not_namesLine (fun _ member => (List.not_mem_nil member).elim) number names
  · have words : SpecFile.wordLines "class a\nclass b" =
        [["class", loneClass.text]] ++ [["class", "b"]] := by decide +kernel
    have isIn : SpecMistake.IsIn (SpecFile.wordLines "class a\nclass b")
        ⟨1, .badLine (.noInterface loneClass), some 2⟩ := .inBlock words loneClass_reads rfl
    refine ⟨SpecFile.parse_error_iff.mpr ⟨_, isIn, rfl⟩, ?_⟩
    rintro ⟨_, number, isInToo, names, shares⟩
    cases isInToo.unique isIn
    cases names.unique (SpecFault.atLine_namesLine 2 _)
    rw [words] at shares
    exact SpecFile.not_sharesBlock_next shares

end ClassWeave
