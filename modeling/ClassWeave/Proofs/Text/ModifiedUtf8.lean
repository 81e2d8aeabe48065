import Mathlib.Data.Nat.Bitwise
import ClassWeave.Text.ModifiedUtf8

/-!
# Modified UTF-8 is read back

A text is found again in the bytes that it is written as. A text that was read never takes more
bytes than it was read from: longer forms than needed are read too, but the shortest are written.
-/

namespace ClassWeave.ModifiedUtf8

/-- The 16-bit units of a character: itself, or its two surrogates. -/
def unitsOf (c : Char) : List Nat :=
  if c.toNat < 0x10000 then [c.toNat] else [highSurrogate c.toNat, lowSurrogate c.toNat]

/-- The shortest form of a unit. Zero has no form of one byte. -/
def unitBytes (unit : Nat) : List UInt8 :=
  if unit ≠ 0 ∧ unit < 0x80 then [UInt8.ofNat unit]
  else if unit < 0x800 then twoBytes unit
  else threeBytes unit

theorem encodeChar_eq (c : Char) : encodeChar c = (unitsOf c).flatMap unitBytes := by
  unfold encodeChar unitsOf
  simp only
  split
  · rename_i short
    have plain : c.toNat < 0x10000 := by omega
    simp [plain, unitBytes, short]
  · rename_i notShort
    split
    · rename_i two
      have plain : c.toNat < 0x10000 := by omega
      simp [plain, unitBytes, notShort, two]
    · rename_i notTwo
      split
      · simp [*, unitBytes]
      · have high : ¬ highSurrogate c.toNat < 0x800 := by
          unfold highSurrogate
          omega
        have low : ¬ lowSurrogate c.toNat < 0x800 := by
          unfold lowSurrogate
          omega
        have highBig : ¬ highSurrogate c.toNat < 0x80 := by omega
        have lowBig : ¬ lowSurrogate c.toNat < 0x80 := by omega
        simp [*, unitBytes]

theorem encode_eq (text : String) : encode text = (text.toList.flatMap unitsOf).flatMap unitBytes := by
  rw [encode, List.flatMap_assoc]
  exact congrArg (text.toList.flatMap ·) (funext encodeChar_eq)

private theorem lead_one : ∀ unit < 0x80, unit ≠ 0 →
    (UInt8.ofNat unit &&& 0x80 == 0 && UInt8.ofNat unit != 0) = true ∧
      (UInt8.ofNat unit).toNat = unit := by decide

/-- What holds of each of the 256 bytes holds of every byte. -/
theorem forall_byte {holds : UInt8 → Prop} (each : ∀ value < 256, holds (UInt8.ofNat value))
    (byte : UInt8) : holds byte := by
  have found := each byte.toNat byte.toNat_lt
  rwa [UInt8.ofNat_toNat] at found

set_option maxRecDepth 1000 in
theorem lead_range : ∀ lead : UInt8, (lead &&& 0x80 == 0 && lead != 0) = true →
    lead.toNat ≠ 0 ∧ lead.toNat < 0x80 := forall_byte (by decide)

private theorem lead_two : ∀ high < 32, (UInt8.ofNat (0xC0 + high) &&& 0x80 == 0) = false ∧
    (UInt8.ofNat (0xC0 + high) &&& 0xE0 == 0xC0) = true ∧
      (UInt8.ofNat (0xC0 + high)).toNat % 32 = high := by decide

private theorem lead_three : ∀ high < 16, (UInt8.ofNat (0xE0 + high) &&& 0x80 == 0) = false ∧
    (UInt8.ofNat (0xE0 + high) &&& 0xE0 == 0xC0) = false ∧
      (UInt8.ofNat (0xE0 + high) &&& 0xF0 == 0xE0) = true ∧
        (UInt8.ofNat (0xE0 + high)).toNat % 16 = high := by decide

private theorem continuation : ∀ low < 64, isContinuation (UInt8.ofNat (0x80 + low)) = true ∧
    (UInt8.ofNat (0x80 + low)).toNat % 64 = low := by decide

/-- A unit is split off the front. -/
theorem unitsFrom_unitBytes {unit : Nat} (fits : unit < 0x10000) (seen : List Nat)
    (rest : List UInt8) : unitsFrom seen (unitBytes unit ++ rest) = unitsFrom (unit :: seen) rest := by
  unfold unitBytes
  split
  · rename_i short
    obtain ⟨isLead, value⟩ := lead_one unit short.2 short.1
    rw [List.singleton_append, unitsFrom.eq_def]
    simp only [isLead, if_true, value]
  · split
    · rename_i two
      obtain ⟨notOne, isLead, leadValue⟩ := lead_two (unit / 64) (by omega)
      obtain ⟨continues, value⟩ := continuation (unit % 64) (by omega)
      rw [twoBytes, List.cons_append, unitsFrom.eq_def]
      simp only [notOne, isLead, List.cons_append, continues, leadValue, value]
      simp [Nat.div_add_mod' unit 64]
    · obtain ⟨notOne, notTwo, isLead, leadValue⟩ := lead_three (unit / 4096) (by omega)
      obtain ⟨secondContinues, secondValue⟩ := continuation (unit / 64 % 64) (by omega)
      obtain ⟨thirdContinues, thirdValue⟩ := continuation (unit % 64) (by omega)
      have whole : unit / 4096 * 4096 + unit / 64 % 64 * 64 + unit % 64 = unit := by omega
      rw [threeBytes, List.cons_append, unitsFrom.eq_def]
      simp only [notOne, notTwo, isLead, List.cons_append, secondContinues, thirdContinues,
        leadValue, secondValue, thirdValue, whole]
      simp

theorem unitsFrom_flatMap {units : List Nat} (fit : ∀ unit ∈ units, unit < 0x10000)
    (seen : List Nat) : unitsFrom seen (units.flatMap unitBytes) = some (seen.reverse ++ units) := by
  induction units generalizing seen with
  | nil => exact congrArg some (List.append_nil _).symm
  | cons unit units ih =>
    rw [List.flatMap_cons, unitsFrom_unitBytes (fit unit List.mem_cons_self),
      ih fun other member => fit other (List.mem_cons_of_mem _ member)]
    simp

theorem unitsOf_lt {c : Char} {unit : Nat} (member : unit ∈ unitsOf c) : unit < 0x10000 := by
  have bound : c.toNat < 0x110000 := by
    have valid := c.valid
    unfold UInt32.isValidChar Nat.isValidChar at valid
    change c.val.toNat < 0x110000
    omega
  unfold unitsOf at member
  split at member
  · simp_all
  · simp only [List.mem_cons, List.not_mem_nil, or_false] at member
    unfold highSurrogate lowSurrogate at member
    omega

/-- A character is put together again from its units. -/
theorem charsFrom_unitsOf (c : Char) (seen : List Char) (rest : List Nat) :
    charsFrom seen (unitsOf c ++ rest) = charsFrom (c :: seen) rest := by
  have valid := c.valid
  unfold UInt32.isValidChar Nat.isValidChar at valid
  change c.toNat < 0xD800 ∨ 0xDFFF < c.toNat ∧ c.toNat < 0x110000 at valid
  unfold unitsOf
  split
  · have notHigh : isHighSurrogate c.toNat = false := by
      simp only [isHighSurrogate, Bool.and_eq_false_iff, decide_eq_false_iff_not]
      omega
    have notLow : isLowSurrogate c.toNat = false := by
      simp only [isLowSurrogate, Bool.and_eq_false_iff, decide_eq_false_iff_not]
      omega
    rw [List.singleton_append, charsFrom.eq_def]
    simp [notHigh, notLow]
  · have isHigh : isHighSurrogate (highSurrogate c.toNat) = true := by
      simp only [isHighSurrogate, Bool.and_eq_true, decide_eq_true_eq]
      unfold highSurrogate
      omega
    have isLow : isLowSurrogate (lowSurrogate c.toNat) = true := by
      simp only [isLowSurrogate, Bool.and_eq_true, decide_eq_true_eq]
      unfold lowSurrogate
      omega
    have whole : 0x10000 + (highSurrogate c.toNat - 0xD800) * 1024
        + (lowSurrogate c.toNat - 0xDC00) = c.toNat := by
      unfold highSurrogate lowSurrogate
      omega
    rw [List.cons_append, charsFrom.eq_def]
    simp [isHigh, isLow, whole]

theorem charsFrom_flatMap (chars seen : List Char) :
    charsFrom seen (chars.flatMap unitsOf) = some (seen.reverse ++ chars) := by
  induction chars generalizing seen with
  | nil => exact congrArg some (List.append_nil _).symm
  | cons c chars ih =>
    rw [List.flatMap_cons, charsFrom_unitsOf, ih]
    simp

/-- What a text is written as is read as this text. -/
theorem decode_encode (text : String) : decode (encode text) = some text := by
  have fit : ∀ unit ∈ text.toList.flatMap unitsOf, unit < 0x10000 := by
    intro unit member
    obtain ⟨c, -, isUnit⟩ := List.mem_flatMap.mp member
    exact unitsOf_lt isUnit
  rw [decode, units?, encode_eq, unitsFrom_flatMap fit]
  simp [charsFrom_flatMap]

/-- Every unit that is split off can be written in the bytes that it was read from. -/
theorem unitsFrom_ok {seen units : List Nat} {bytes : List UInt8}
    (done : unitsFrom seen bytes = some units) : ∃ later, units = seen.reverse ++ later ∧
      (∀ unit ∈ later, unit < 0x10000) ∧ (later.flatMap unitBytes).length ≤ bytes.length := by
  -- one more unit in front of those that follow
  have more {unit : Nat} {seen : List Nat} (front : List UInt8) {rest : List UInt8}
      (fits : unit < 0x10000) (short : (unitBytes unit).length ≤ front.length)
      (others : ∃ later, units = (unit :: seen).reverse ++ later ∧
        (∀ unit ∈ later, unit < 0x10000) ∧ (later.flatMap unitBytes).length ≤ rest.length) :
      ∃ later, units = seen.reverse ++ later ∧
        (∀ unit ∈ later, unit < 0x10000) ∧
          (later.flatMap unitBytes).length ≤ (front ++ rest).length := by
    obtain ⟨later, rfl, fit, length⟩ := others
    refine ⟨unit :: later, by simp, ?_, ?_⟩
    · simpa using ⟨fits, fit⟩
    · rw [List.flatMap_cons, List.length_append, List.length_append]
      omega
  fun_induction unitsFrom seen bytes with
  | case1 seen =>
    cases done
    exact ⟨[], by simp, by simp, Nat.le_refl _⟩
  | case2 seen lead rest isLead ih =>
    have short := lead_range lead isLead
    have fits : lead.toNat < 0x10000 := by omega
    refine more [lead] fits ?_ (ih done)
    rw [unitBytes, if_pos short]
    exact Nat.le_refl 1
  | case3 seen lead _ _ second rest _ ih =>
    have fits : lead.toNat % 32 * 64 + second.toNat % 64 < 0x10000 := by omega
    refine more [lead, second] fits ?_ (ih done)
    unfold unitBytes
    split
    · exact Nat.le_succ 1
    · rw [if_pos (by omega)]
      exact Nat.le_refl 2
  | case6 seen lead _ _ _ second third rest _ ih =>
    have fits : lead.toNat % 16 * 4096 + second.toNat % 64 * 64 + third.toNat % 64 < 0x10000 := by
      omega
    refine more [lead, second, third] fits ?_ (ih done)
    unfold unitBytes
    split
    · exact Nat.le_add_left 1 2
    · split
      · exact Nat.le_succ 2
      · exact Nat.le_refl 3
  | _ => cases done

private theorem toNat_ofNat {unit : Nat} (valid : unit.isValidChar) :
    (Char.ofNat unit).toNat = unit := by
  rw [Char.ofNat, dif_pos valid]
  rfl

/-- The units of the characters are those that the characters were joined from. -/
theorem charsFrom_ok {seen chars : List Char} {units : List Nat}
    (fit : ∀ unit ∈ units, unit < 0x10000) (done : charsFrom seen units = some chars) :
    ∃ later, chars = seen.reverse ++ later ∧ later.flatMap unitsOf = units := by
  fun_induction charsFrom seen units with
  | case1 seen =>
    cases done
    exact ⟨[], by simp, rfl⟩
  | case2 seen high isHigh low rest isLow ih =>
    obtain ⟨later, rfl, same⟩ := ih
      (fun unit member => fit unit (List.mem_cons_of_mem _ (List.mem_cons_of_mem _ member))) done
    simp only [isHighSurrogate, isLowSurrogate, Bool.and_eq_true, decide_eq_true_eq] at isHigh isLow
    have valid : Nat.isValidChar (0x10000 + (high - 0xD800) * 1024 + (low - 0xDC00)) := by
      unfold Nat.isValidChar
      omega
    refine ⟨Char.ofNat (0x10000 + (high - 0xD800) * 1024 + (low - 0xDC00)) :: later, by simp, ?_⟩
    rw [List.flatMap_cons, same, unitsOf, toNat_ofNat valid, if_neg (by omega)]
    have first : highSurrogate (0x10000 + (high - 0xD800) * 1024 + (low - 0xDC00)) = high := by
      unfold highSurrogate
      omega
    have second : lowSurrogate (0x10000 + (high - 0xD800) * 1024 + (low - 0xDC00)) = low := by
      unfold lowSurrogate
      omega
    rw [first, second]
    rfl
  | case6 seen unit rest notHigh notLow ih =>
    obtain ⟨later, rfl, same⟩ := ih (fun unit member => fit unit (List.mem_cons_of_mem _ member)) done
    simp only [isHighSurrogate, isLowSurrogate, Bool.and_eq_true, decide_eq_true_eq] at notHigh notLow
    have plain := fit unit List.mem_cons_self
    have valid : Nat.isValidChar unit := by
      unfold Nat.isValidChar
      omega
    refine ⟨Char.ofNat unit :: later, by simp, ?_⟩
    rw [List.flatMap_cons, same, unitsOf, toNat_ofNat valid, if_pos plain]
    rfl
  | _ => cases done

/-- A text is not written in more bytes than it is read from. -/
theorem length_encode_le {bytes : List UInt8} {text : String} (done : decode bytes = some text) :
    (encode text).length ≤ bytes.length := by
  obtain ⟨units, unitsFound, done⟩ := Option.bind_eq_some_iff.mp done
  obtain ⟨chars, charsFound, done⟩ := Option.bind_eq_some_iff.mp done
  cases done
  obtain ⟨_, rfl, fit, length⟩ := unitsFrom_ok unitsFound
  obtain ⟨_, rfl, same⟩ := charsFrom_ok fit charsFound
  rw [encode_eq, String.toList_ofList, same]
  exact length

end ClassWeave.ModifiedUtf8
