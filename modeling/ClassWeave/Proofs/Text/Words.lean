import ClassWeave.Text.Blank

/-!
# The words of a text

A blank ends a word, and belongs to none. So the words of a text in front of a blank, and those behind
it, make up the words of the whole.
-/

namespace ClassWeave.Text

theorem wordsFrom_blank {blank : Char} (separates : isBlank blank = true)
    (current rest : List Char) :
    wordsFrom current (blank :: rest) = wordsFrom current [] ++ words rest := by
  simp only [wordsFrom, separates, words]
  by_cases none : current.isEmpty = true <;> simp [none]

theorem wordsFrom_letter {letter : Char} (isLetter : isBlank letter = false)
    (current rest : List Char) :
    wordsFrom current (letter :: rest) = wordsFrom (letter :: current) rest := by
  simp [wordsFrom, isLetter]

theorem wordsFrom_append_blank {blank : Char} (separates : isBlank blank = true)
    (current front rest : List Char) :
    wordsFrom current (front ++ blank :: rest) = wordsFrom current front ++ words rest := by
  induction front generalizing current with
  | nil => exact wordsFrom_blank separates current rest
  | cons c front ih =>
    rw [List.cons_append]
    by_cases other : isBlank c = true
    · rw [wordsFrom_blank other, wordsFrom_blank other, List.append_assoc]
      exact congrArg _ (ih [])
    · rw [wordsFrom_letter (by simpa using other), wordsFrom_letter (by simpa using other), ih]

theorem words_blank {blank : Char} (separates : isBlank blank = true) (rest : List Char) :
    words (blank :: rest) = words rest := wordsFrom_blank separates [] rest

/-- Words end where a blank follows. -/
theorem words_append {front rest : List Char} (starts : ∀ c ∈ rest.head?, isBlank c = true) :
    words (front ++ rest) = words front ++ words rest := by
  cases rest with
  | nil => simp [words, wordsFrom]
  | cons blank rest =>
    have separates := starts blank rfl
    rw [words_blank separates]
    exact wordsFrom_append_blank separates [] front rest

theorem words_blanks_append {gap : List Char} (blanks : ∀ c ∈ gap, isBlank c = true)
    (rest : List Char) : words (gap ++ rest) = words rest := by
  induction gap with
  | nil => rfl
  | cons blank gap ih =>
    obtain ⟨separates, blanks⟩ := List.forall_mem_cons.mp blanks
    rw [List.cons_append, words_blank separates]
    exact ih blanks

theorem wordsFrom_letters {word : List Char} (letters : ∀ c ∈ word, isBlank c = false)
    (current : List Char) :
    wordsFrom current word = wordsFrom (word.reverse ++ current) [] := by
  induction word generalizing current with
  | nil => rfl
  | cons c word ih =>
    obtain ⟨isLetter, letters⟩ := List.forall_mem_cons.mp letters
    rw [wordsFrom_letter isLetter, ih letters (c :: current)]
    simp

theorem words_letters {word : List Char} (nonempty : word ≠ [])
    (letters : ∀ c ∈ word, isBlank c = false) : words word = [word] := by
  rw [words, wordsFrom_letters letters, wordsFrom, if_neg (by simpa using nonempty)]
  simp

theorem mem_wordsFrom {current text word : List Char} (letters : ∀ c ∈ current, isBlank c = false)
    (member : word ∈ wordsFrom current text) : ∀ c ∈ word, isBlank c = false := by
  have reversed : ∀ c ∈ current.reverse, isBlank c = false :=
    fun c inside => letters c (List.mem_reverse.mp inside)
  induction text generalizing current with
  | nil =>
    unfold wordsFrom at member
    split at member
    · cases member
    · rwa [List.mem_singleton.mp member]
  | cons c text ih =>
    by_cases blank : isBlank c = true
    · rw [wordsFrom_blank blank, wordsFrom] at member
      rcases List.mem_append.mp member with ends | later
      · split at ends
        · cases ends
        · rwa [List.mem_singleton.mp ends]
      · exact ih (by simp) later (by simp)
    · have isLetter : isBlank c = false := by simpa using blank
      rw [wordsFrom_letter isLetter] at member
      have longer : ∀ d ∈ c :: current, isBlank d = false :=
        List.forall_mem_cons.mpr ⟨isLetter, letters⟩
      exact ih longer member fun d inside => longer d (List.mem_reverse.mp inside)

/-- No blank is in a word. -/
theorem mem_words {text word : List Char} (member : word ∈ words text) :
    ∀ c ∈ word, isBlank c = false :=
  mem_wordsFrom (by simp) member

end ClassWeave.Text
