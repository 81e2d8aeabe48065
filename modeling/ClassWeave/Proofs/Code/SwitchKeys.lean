import ClassWeave.Proofs.Code.Listing

/-!
# The keys of switches

A switch over a range of keys stores the lowest and the highest one, of which a body only keeps the
lowest. The highest is worked out again from the number of targets when the switch is written. The
result is always the one that was read, but the sum on the way to it is one more, and that is too
much for 32 bits if the highest key is the last one that there is.
-/

namespace ClassWeave

/-- A number, unless it takes more than 32 bits. -/
def checkedInt32 (number : Int) : Option Int32 :=
  if -2147483648 ≤ number ∧ number ≤ 2147483647 then some (Int32.ofInt number) else none

theorem checkedInt32_eq_some {number : Int} {value : Int32} :
    checkedInt32 number = some value ↔ value.toInt = number := by
  have lowest := value.le_toInt
  have highest := value.toInt_lt
  unfold checkedInt32
  split
  · rename_i fits
    have exact : (Int32.ofInt number).toInt = number :=
      Int32.toInt_ofInt_of_le fits.1 (Int.lt_add_one_of_le fits.2)
    rw [Option.some.injEq, ← Int32.toInt_inj, exact, eq_comm]
  · simp only [reduceCtorEq, false_iff]
    omega

namespace Branch

/-- The highest key of a switch, worked out as a branch is written but for its sums, which have to
fit into 32 bits. The number of targets is cut to 32 bits before that. -/
def checkedHigh (low : Int32) (count : Nat) : Option Int32 := do
  let above ← checkedInt32 (low.toInt + (Int32.ofNat count).toInt)
  checkedInt32 (above.toInt - 1)

/-- The lowest and the highest key of the switch that the bytes at an offset begin with. -/
def HasKeys (offset : Nat) (bytes : Bytes) (low high : Int32) : Prop :=
  ∃ padding default rest : Bytes, padding.length = switchPadding offset ∧ default.length = 4 ∧
    bytes = 0xAA :: (padding ++ (default ++ (Bytes.ofUInt32 low.toUInt32 ++
      (Bytes.ofUInt32 high.toUInt32 ++ rest))))

theorem checkedHigh_eq_some {low high : Int32} {count : Nat} : checkedHigh low count = some high ↔
    ∃ above : Int32, above.toInt = low.toInt + (Int32.ofNat count).toInt ∧
      high.toInt = above.toInt - 1 := by
  refine Option.bind_eq_some_iff.trans ?_
  simp only [checkedInt32_eq_some]

/-- A number of targets that takes more than 31 bits turns negative. -/
theorem toInt_ofNat_count {count : Nat} (bound : count ≤ 4294967296) :
    (Int32.ofNat count).toInt =
      if count < 2147483648 then (count : Int) else (count : Int) - 4294967296 := by
  rw [Int32.toInt_ofNat', show Int32.size = 4294967296 from rfl, Int.bmod_def]
  split <;> split <;> omega

/-- The highest key is found with no sum too large, unless it is the last of all numbers or there
are more targets than 31 bits can count. -/
theorem checkedHigh_of_range {low high : Int32} {count : Nat}
    (range : (count : Int) = high.toInt - low.toInt + 1) :
    checkedHigh low count =
      if high = Int32.maxValue ∨ 2147483648 ≤ count then none else some high := by
  have lowest := low.le_toInt
  have highest := high.toInt_lt
  have isLast : high = Int32.maxValue ↔ high.toInt = 2147483647 := Int32.toInt_inj.symm
  have cut := @toInt_ofNat_count count (by omega)
  split
  · rename_i tooLarge
    rw [isLast] at tooLarge
    refine Option.eq_none_iff_forall_ne_some.mpr fun value found => ?_
    obtain ⟨above, isSum, isLess⟩ := checkedHigh_eq_some.mp found
    have aboveLowest := above.le_toInt
    have aboveHighest := above.toInt_lt
    have valueLowest := value.le_toInt
    rw [cut] at isSum
    split at isSum <;> omega
  · rename_i fits
    rw [isLast] at fits
    have above : (Int32.ofInt (high.toInt + 1)).toInt = high.toInt + 1 :=
      Int32.toInt_ofInt_of_le (by have := high.le_toInt; omega) (by omega)
    refine checkedHigh_eq_some.mpr ⟨Int32.ofInt (high.toInt + 1), ?_, by omega⟩
    rw [above, cut, if_pos (by omega)]
    omega

end Branch

namespace Bytecode

open Reader

variable {offset : Nat} {input rest : Input}

/-- A jump that was read is written with the bytes that it had. -/
theorem recovers_wideJump (offset : Nat) :
    Recovers (wideJump offset) (Branch.encodeWide offset) := by
  intro input rest target done
  obtain ⟨distance, middle, read, done⟩ := bind_ok.mp done
  have reached : middle = rest ∧ Branch.distance offset target = distance.toInt := by
    simp only [jumpTo] at done
    split at done
    · cases done
    · cases done
      refine ⟨rfl, ?_⟩
      rw [Branch.distance]
      omega
  rw [Branch.encodeWide, reached.2, Int32.ofInt_toInt, ← reached.1]
  exact recovers_int32 read

/-- The bytes of a switch that was read, and how many targets its keys ask for. -/
theorem readTableSwitch_ok {default : Nat} {low : Int32} {targets : List Nat}
    (done : readTableSwitch offset input = .ok (.branch (.tableSwitch default low targets), rest)) :
    ∃ high : Int32, Branch.HasKeys offset (0xAA :: input.ahead) low high ∧
      0 < targets.length ∧ (targets.length : Int) = high.toInt - low.toInt + 1 ∧
      4 * targets.length ≤ input.ahead.length := by
  obtain ⟨zeros, first, zerosRead, done⟩ := bind_ok.mp done
  obtain ⟨target, second, defaultRead, done⟩ := bind_ok.mp done
  obtain ⟨lowest, third, lowRead, done⟩ := bind_ok.mp done
  obtain ⟨high, fourth, highRead, done⟩ := bind_ok.mp done
  split at done
  · cases done
  · rename_i ordered
    rw [Int32.lt_iff_toInt_lt] at ordered
    obtain ⟨others, last, targetsRead, done⟩ := bind_ok.mp done
    cases done
    obtain ⟨padded, zerosAhead⟩ := times_ok recovers_uint8 zerosRead
    obtain ⟨count, targetsAhead⟩ := times_ok (recovers_wideJump offset) targetsRead
    have whole : input.ahead = zeros ++ (Branch.encodeWide offset default ++
        (Bytes.ofUInt32 low.toUInt32 ++ (Bytes.ofUInt32 high.toUInt32 ++
          (targets.flatMap (Branch.encodeWide offset) ++ rest.ahead)))) := by
      rw [zerosAhead, recovers_wideJump offset defaultRead, recovers_int32 lowRead,
        recovers_int32 highRead, targetsAhead]
      simp
    have table : (targets.flatMap (Branch.encodeWide offset)).length = 4 * targets.length := by
      simp [List.length_flatMap, length_encodeWide, Nat.mul_comm]
    refine ⟨high, ⟨zeros, _, _, padded, length_encodeWide _, by rw [whole]⟩, by omega, by omega, ?_⟩
    simp only [whole, List.length_append, table]
    omega

/-- A switch in bytecode has as many targets as there are keys between its two. -/
theorem ReadFrom.hasKeys {code : Bytes} {default : Nat} {low : Int32} {targets : List Nat}
    (read : ReadFrom code (offset, .branch (.tableSwitch default low targets))) :
    ∃ high : Int32, Branch.HasKeys offset (code.drop offset) low high ∧
      0 < targets.length ∧ (targets.length : Int) = high.toInt - low.toInt + 1 ∧
      4 * targets.length ≤ code.length := by
  obtain ⟨rest, done⟩ := read
  obtain ⟨opcode, middle, opcodeRead, ⟨-, other⟩ | ⟨rfl, done⟩⟩ := readInstruction_cases _ done
  · exact (other trivial).elim
  · have here : code.drop offset = 0xAA :: middle.ahead := recovers_uint8 opcodeRead
    obtain ⟨high, keys, nonempty, range, room⟩ := readTableSwitch_ok done
    have inside := congrArg List.length here
    rw [List.length_drop, List.length_cons] at inside
    exact ⟨high, here ▸ keys, nonempty, range, by omega⟩

/-- A switch is written with the keys that it was read with, if it keeps its number of targets. -/
theorem encodeAt_hasKeys {low high : Int32} {targets : List Nat} (nonempty : 0 < targets.length)
    (range : (targets.length : Int) = high.toInt - low.toInt + 1) (place : Nat) (widened : Bool)
    (default : Nat) :
    ∃ bytes, Branch.encodeAt place widened (.tableSwitch default low targets) = .ok bytes ∧
      Branch.HasKeys place bytes low high := by
  have highest := high.toInt_lt
  have same : low + Int32.ofNat targets.length - 1 = high := by
    apply Int32.toInt_inj.mp
    rw [toInt_high nonempty (by omega)]
    omega
  refine ⟨_, rfl, Branch.padding place, Branch.encodeWide place default,
    targets.flatMap (Branch.encodeWide place), ?_, rfl, ?_⟩
  · simp [Branch.padding]
  · simp [same]

/-- Whatever switch over a range is read from bytecode, it is written with the highest key that it
had, wherever it goes and its targets have gone. If the sums on the way to it are checked, this
fails for the last of all numbers, and otherwise only for code of more than eight gigabytes. -/
theorem tableSwitch_highest {code : Bytes} {listing : List (Nat × RawInstruction)}
    (done : split code = .ok listing) {default : Nat} {low : Int32} {targets : List Nat}
    (member : (offset, .branch (.tableSwitch default low targets)) ∈ listing) :
    ∃ high : Int32, Branch.HasKeys offset (code.drop offset) low high ∧
      (∀ (place : Nat) (widened : Bool) (other : Nat) (moved : List Nat),
        moved.length = targets.length →
        ∃ bytes, Branch.encodeAt place widened (.tableSwitch other low moved) = .ok bytes ∧
          Branch.HasKeys place bytes low high) ∧
      4 * targets.length ≤ code.length ∧
      Branch.checkedHigh low targets.length =
        if high = Int32.maxValue ∨ 2147483648 ≤ targets.length then none else some high := by
  obtain ⟨high, keys, nonempty, range, room⟩ := (split_reads done _ member).hasKeys
  refine ⟨high, keys, fun place widened other moved same => ?_, room,
    Branch.checkedHigh_of_range range⟩
  exact encodeAt_hasKeys (same ▸ nonempty) (same ▸ range) place widened other

/-- A switch with a single key, and the return that all its jumps go to. -/
def soleKey (key : Int32) : Bytes :=
  [0xAA, 0, 0, 0, 0, 0, 0, 20] ++ Bytes.ofUInt32 key.toUInt32 ++ Bytes.ofUInt32 key.toUInt32 ++
    [0, 0, 0, 20] ++ [0xB1]

def soleKeyListing (key : Int32) : List (Nat × RawInstruction) :=
  [(0, .branch (.tableSwitch 20 key [20])), (20, .branch (.ret .void))]

theorem soleKey_split (key : Int32) : split (soleKey key) = .ok (soleKeyListing key) := by
  have highest := key.toInt_lt
  have switch : Writes 0 (.branch (.tableSwitch 20 key [20])) ([0xAA, 0, 0, 0, 0, 0, 0, 20] ++
      Bytes.ofUInt32 key.toUInt32 ++ Bytes.ofUInt32 key.toUInt32 ++ [0, 0, 0, 20]) := by
    have same : key + Int32.ofNat 1 - 1 = key := by simp
    refine .branch ?_
    rw [Branch.encodeAt, List.length_singleton, same]
    rfl
  have written : Written 0 (soleKeyListing key) (soleKey key) :=
    .cons switch (.single (.branch rfl))
  have size : (soleKey key).length = 21 := rfl
  refine split_written written (by omega) ?_ ?_
  · intro entry member
    simp only [soleKeyListing, List.mem_cons, List.not_mem_nil, or_false] at member
    rcases member with rfl | rfl
    · exact ⟨Nat.one_pos, Int.add_one_le_of_lt highest⟩
    · trivial
  · intro entry member target reached
    have isReturn : target = 20 := by
      simp only [soleKeyListing, List.mem_cons, List.not_mem_nil, or_false] at member
      rcases member with rfl | rfl
      · simpa [RawInstruction.targets, Branch.targets] using reached
      · cases reached
    omega

theorem soleKey_highest : split (soleKey 2147483646) = .ok (soleKeyListing 2147483646) ∧
    ∃ high : Int32, Branch.HasKeys 0 (soleKey 2147483646) 2147483646 high ∧
      (∀ (place : Nat) (widened : Bool) (other : Nat) (moved : List Nat), moved.length = 1 →
        ∃ bytes, Branch.encodeAt place widened (.tableSwitch other 2147483646 moved) = .ok bytes ∧
          Branch.HasKeys place bytes 2147483646 high) ∧
      4 * 1 ≤ (soleKey 2147483646).length ∧
      Branch.checkedHigh 2147483646 1 =
        if high = Int32.maxValue ∨ 2147483648 ≤ 1 then none else some high :=
  ⟨soleKey_split _, @tableSwitch_highest 0 _ _ (soleKey_split _) 20 _ [20] List.mem_cons_self⟩

/-- The sum on the way to the last of all keys is too large. -/
theorem lastKey_overflows : ¬ ∀ (code : Bytes) (listing : List (Nat × RawInstruction)),
    split code = .ok listing → ∀ (offset default : Nat) (low : Int32) (targets : List Nat),
      (offset, .branch (.tableSwitch default low targets)) ∈ listing →
      ∃ high : Int32, Branch.HasKeys offset (code.drop offset) low high ∧
        Branch.checkedHigh low targets.length = some high := by
  intro claimed
  obtain ⟨high, -, found⟩ := claimed _ _ (soleKey_split 2147483647) 0 20 2147483647 [20]
    List.mem_cons_self
  have refused : Branch.checkedHigh 2147483647 1 = none := by decide
  exact absurd (refused.symm.trans found) (by simp)

end Bytecode

end ClassWeave
