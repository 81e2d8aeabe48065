import ClassWeave.Proofs.Code.Straight
import ClassWeave.Proofs.Outcome

/-!
# Reading branches back

The bytes of a branch are read as that branch, as long as its distances fit into the bytes that they
have and its table, if it has one, is one that a class file can hold. The offsets of a method are
near enough.
-/

namespace ClassWeave

/-- A table has entries, and their keys are in range. -/
def Branch.FitsTable {τ : Type} : Branch τ → Prop
  | tableSwitch _ low targets => 0 < targets.length ∧ low.toInt + targets.length ≤ 2147483647
  | _ => True

/-- A table has entries, and each of their keys is a number of 32 bits. -/
def Branch.KeysFit {τ : Type} : Branch τ → Prop
  | tableSwitch _ low targets => 0 < targets.length ∧ low.toInt + targets.length ≤ 2147483648
  | _ => True

theorem Branch.FitsTable.keysFit {τ : Type} {jump : Branch τ} (fits : jump.FitsTable) :
    jump.KeysFit := by
  cases jump with
  | tableSwitch => exact ⟨fits.1, Int.le_trans fits.2 (by decide)⟩
  | _ => trivial

/-- The distance fits into 32 bits. -/
def Branch.Reaches (source target : Nat) : Prop :=
  -2 ^ 31 ≤ distance source target ∧ distance source target < 2 ^ 31

theorem Branch.reaches_inside {source target : Nat} (sourceFits : source ≤ 65535)
    (targetFits : target ≤ 65535) : Reaches source target := by
  rw [Reaches, distance]
  omega

theorem Branch.widthAt_pos {τ : Type} (jump : Branch τ) (offset : Nat) (widened : Bool) :
    0 < jump.widthAt offset widened := by
  cases jump with
  | jumpIf | goto => cases widened <;> exact Nat.succ_pos _
  | tableSwitch | lookupSwitch =>
    rw [Branch.widthAt]
    omega
  | ret | athrow => exact Nat.one_pos

namespace Bytecode

open Reader

variable {offset : Nat}

theorem reads_jumpTo (offset target : Nat) :
    Reads (jumpTo offset (Branch.distance offset target)) [] target := by
  have forwards : (offset : Int) + Branch.distance offset target = target := by
    rw [Branch.distance]
    omega
  simp only [jumpTo, forwards]
  rw [if_neg (Int.not_lt.mpr (Int.natCast_nonneg target)), Int.toNat_natCast]
  exact .pure target

theorem reads_shortJump {target : Nat} (short : Branch.isShort (Branch.distance offset target)) :
    Reads (shortJump offset)
      (Bytes.ofUInt16 (Int16.ofInt (Branch.distance offset target)).toUInt16) target := by
  simp only [Branch.isShort, Bool.and_eq_true, decide_eq_true_eq] at short
  refine (Reads.int16 _).andThen ?_
  rw [Int16.toInt_ofInt_of_le short.1 (Int.lt_add_one_of_le short.2)]
  exact reads_jumpTo offset target

theorem reads_wideJump {target : Nat} (reaches : Branch.Reaches offset target) :
    Reads (wideJump offset) (Branch.encodeWide offset target) target := by
  refine (Reads.int32 _).andThen ?_
  rw [Int32.toInt_ofInt_of_le reaches.1 reaches.2]
  exact reads_jumpTo offset target

theorem encodeShort_ok {opcode : UInt8} {target : Nat} {bytes : Bytes}
    (done : Branch.encodeShort opcode offset target = .ok bytes) :
    Branch.isShort (Branch.distance offset target) = true ∧ bytes =
      opcode :: Bytes.ofUInt16 (Int16.ofInt (Branch.distance offset target)).toUInt16 := by
  unfold Branch.encodeShort at done
  simp only at done
  split at done
  · rename_i short
    cases done
    exact ⟨short, rfl⟩
  · cases done

theorem reads_conditional {test decoded : Test} {target : Nat} (same : decoded = test)
    (short : Branch.isShort (Branch.distance offset target)) :
    Reads (conditional offset decoded)
      (Bytes.ofUInt16 (Int16.ofInt (Branch.distance offset target)).toUInt16)
      (.branch (.jumpIf test target)) := by
  subst same
  exact (reads_shortJump short).andThen (.pure _)

theorem reads_jumpIf {test : Test} {target : Nat} {bytes : Bytes}
    (done : Branch.encodeShort test.opcode offset target = .ok bytes) :
    Reads (readInstruction offset) bytes (.branch (.jumpIf test target)) := by
  obtain ⟨short, rfl⟩ := encodeShort_ok done
  cases test with
  | zero comparison =>
    have decoded : comparisonOf ((Test.zero comparison).opcode.toNat - 0x99) = comparison := by
      cases comparison <;> decide
    have read := reads_conditional (congrArg Test.zero decoded) short
    cases comparison <;> exact reads_operands (by decide) read
  | ints comparison =>
    have decoded : comparisonOf ((Test.ints comparison).opcode.toNat - 0x9F) = comparison := by
      cases comparison <;> decide
    have read := reads_conditional (congrArg Test.ints decoded) short
    cases comparison <;> exact reads_operands (by decide) read
  | references equality | null equality =>
    cases equality <;> exact reads_operands (by decide) (reads_conditional rfl short)

theorem reads_goto {target : Nat} {bytes : Bytes}
    (done : Branch.encodeShort 0xA7 offset target = .ok bytes) :
    Reads (readInstruction offset) bytes (.branch (.goto target)) := by
  obtain ⟨short, rfl⟩ := encodeShort_ok done
  exact reads_operands (by decide) ((reads_shortJump short).andThen (.pure _))

theorem reads_longGoto {target : Nat} (reaches : Branch.Reaches offset target) :
    Reads (readInstruction offset) (0xC8 :: Branch.encodeWide offset target)
      (.branch (.goto target)) :=
  reads_operands (by decide) ((reads_wideJump reaches).andThen (.pure _))

theorem reads_padding (offset : Nat) :
    Reads (times uint8 (Branch.switchPadding offset)) (Branch.padding offset)
      (List.replicate (Branch.switchPadding offset) 0) := by
  have read (zeros : Bytes) : Reads (times uint8 zeros.length) (zeros.flatMap ([·])) zeros :=
    Reads.times fun value _ => Reads.uint8 value
  simpa [Branch.padding] using read (List.replicate (Branch.switchPadding offset) 0)

theorem toInt_high {low : Int32} {count : Nat} (some : 0 < count)
    (fits : low.toInt + count ≤ 2147483648) :
    (low + Int32.ofNat count - 1).toInt = low.toInt + count - 1 := by
  have lowest := low.le_toInt
  rw [Int32.toInt_sub, Int32.toInt_add, Int32.toInt_ofNat', Int.add_bmod_bmod, Int32.toInt_one,
    Int.bmod_sub_bmod, show Int32.size = 4294967296 from rfl]
  exact Int.bmod_eq_of_le (by omega) (by omega)

theorem reads_tableSwitch {default : Nat} {low : Int32} {targets : List Nat} {bytes : Bytes}
    (reaches : ∀ target ∈ default :: targets, Branch.Reaches offset target)
    (fits : 0 < targets.length ∧ low.toInt + targets.length ≤ 2147483648)
    (done : Branch.encodeAt offset false (.tableSwitch default low targets) = .ok bytes) :
    Reads (readInstruction offset) bytes (.branch (.tableSwitch default low targets)) := by
  simp only [Branch.encodeAt, List.cons_append, List.append_assoc, Except.ok.injEq] at done
  subst done
  have high := toInt_high fits.1 fits.2
  have wide {target : Nat} (member : target ∈ default :: targets) :=
    reads_wideJump (reaches target member)
  have table : Reads (times (wideJump offset) targets.length)
      (targets.flatMap (Branch.encodeWide offset)) targets :=
    Reads.times fun target member => wide (List.mem_cons_of_mem default member)
  have count : ((low + Int32.ofNat targets.length - 1).toInt - low.toInt + 1).toNat =
      targets.length := by omega
  refine reads_operands (by decide) ?_
  refine (reads_padding offset).bind ((wide List.mem_cons_self).bind ((Reads.int32 low).bind
    ((Reads.int32 _).bind ?_)))
  rw [if_neg]
  · rw [count]
    exact table.andThen (.pure _)
  · rw [Int32.lt_iff_toInt_lt]
    omega

theorem reads_lookupSwitch {default : Nat} {cases : List (Int32 × Nat)} {bytes : Bytes}
    (reaches : ∀ target ∈ default :: cases.map Prod.snd, Branch.Reaches offset target)
    (fits : cases.length ≤ 2147483647)
    (done : Branch.encodeAt offset false (.lookupSwitch default cases) = .ok bytes) :
    Reads (readInstruction offset) bytes (.branch (.lookupSwitch default cases)) := by
  simp only [Branch.encodeAt, List.cons_append, List.append_assoc, Except.ok.injEq] at done
  subst done
  have wide {target : Nat} (member : target ∈ default :: cases.map Prod.snd) :=
    reads_wideJump (reaches target member)
  have readCase (case : Int32 × Nat) (member : case ∈ cases) :
      Reads (do let key ← int32; return (key, ← wideJump offset))
        (Bytes.ofUInt32 case.1.toUInt32 ++ Branch.encodeWide offset case.2) case :=
    (Reads.int32 case.1).bind
      ((wide (List.mem_cons_of_mem default (List.mem_map_of_mem member))).andThen (.pure case))
  have table := Reads.times readCase
  have count : (Int32.ofNat cases.length).toInt = cases.length :=
    Int32.toInt_ofNat_of_lt (by omega)
  refine reads_operands (by decide) ?_
  refine (reads_padding offset).bind ((wide List.mem_cons_self).bind
    ((Reads.int32 (Int32.ofNat cases.length)).bind ?_))
  rw [if_neg]
  · rw [count, Int.toNat_natCast]
    exact table.andThen (.pure _)
  · rw [Int32.lt_iff_toInt_lt, count]
    exact Int.not_lt.mpr (Int.natCast_nonneg _)

theorem reads_ret (kind : ReturnKind) :
    Reads (readInstruction offset) [kind.opcode] (.branch (.ret kind)) := by
  have decoded : returnKindOf (kind.opcode.toNat - 0xAC) = kind := by
    cases kind <;> decide
  have read : Reads (return RawInstruction.branch (.ret (returnKindOf (kind.opcode.toNat - 0xAC))))
      [] (.branch (.ret kind)) := by
    rw [decoded]
    exact .pure _
  cases kind <;> exact reads_operands (by decide) read

theorem length_ofUInt32 (value : UInt32) : (Bytes.ofUInt32 value).length = 4 := rfl

theorem length_encodeWide (target : Nat) : (Branch.encodeWide offset target).length = 4 := rfl

theorem length_encodeShort {opcode : UInt8} {target : Nat} {bytes : Bytes}
    (done : Branch.encodeShort opcode offset target = .ok bytes) : bytes.length = 3 := by
  obtain ⟨-, rfl⟩ := encodeShort_ok done
  rfl

private theorem length_flatMap_const {α : Type} {values : List α} {write : α → Bytes} {width : Nat}
    (each : ∀ value, (write value).length = width) :
    (values.flatMap write).length = width * values.length := by
  simp [List.length_flatMap, each, Nat.mul_comm]

/-- A branch is as wide as its bytes. -/
theorem length_encodeAt {jump : Branch Nat} {widened : Bool} {bytes : Bytes}
    (done : jump.encodeAt offset widened = .ok bytes) :
    bytes.length = jump.widthAt offset widened := by
  cases jump with
  | jumpIf test target =>
    cases widened with
    | true =>
      obtain ⟨skip, skipFound, same⟩ := Outcome.bind_ok.mp done
      cases Outcome.pure_ok.mp same
      rw [List.length_append, length_encodeShort skipFound]
      rfl
    | false => exact length_encodeShort done
  | goto target =>
    cases widened with
    | true =>
      cases done
      rfl
    | false => exact length_encodeShort done
  | tableSwitch default low targets =>
    cases done
    have table : (targets.flatMap (Branch.encodeWide offset)).length = 4 * targets.length :=
      length_flatMap_const fun _ => rfl
    simp only [List.length_append, List.length_cons, table, Branch.padding, List.length_replicate,
      length_encodeWide, length_ofUInt32, Branch.widthAt]
    omega
  | lookupSwitch default cases =>
    cases done
    have pairs : (cases.flatMap fun pair =>
        Bytes.ofUInt32 pair.1.toUInt32 ++ Branch.encodeWide offset pair.2).length =
        8 * cases.length := length_flatMap_const fun _ => rfl
    simp only [List.length_append, List.length_cons, pairs, Branch.padding, List.length_replicate,
      length_encodeWide, length_ofUInt32, Branch.widthAt]
    omega
  | ret | athrow =>
    cases done
    rfl

/-- How an instruction is written: long jumps are those that need not fit into 16 bits. -/
inductive Writes (offset : Nat) : RawInstruction → Bytes → Prop where
  | straight (step : PoolInstruction) : Writes offset (.straight step) step.encode
  | branch {jump : Branch Nat} {bytes : Bytes} (done : jump.encodeAt offset false = .ok bytes) :
      Writes offset (.branch jump) bytes
  | longGoto (target : Nat) :
      Writes offset (.branch (.goto target)) (0xC8 :: Branch.encodeWide offset target)

/-- What can be told from an instruction in a class file. -/
def KeysFit : RawInstruction → Prop
  | .straight _ => True
  | .branch jump => jump.KeysFit

/-- What is written is read back, if its offsets are those of a method. -/
theorem Writes.reads {instruction : RawInstruction} {bytes : Bytes}
    (written : Writes offset instruction bytes) (offsetFits : offset ≤ 65535)
    (targetsFit : ∀ target ∈ instruction.targets, target ≤ 65535)
    (short : bytes.length ≤ 65535) (fits : KeysFit instruction) :
    Reads (readInstruction offset) bytes instruction := by
  have reaches (target : Nat) (member : target ∈ instruction.targets) :
      Branch.Reaches offset target := Branch.reaches_inside offsetFits (targetsFit target member)
  cases written with
  | straight step => exact reads_straight step
  | longGoto target => exact reads_longGoto (reaches target List.mem_cons_self)
  | @branch jump _ done =>
    cases jump with
    | jumpIf test target => exact reads_jumpIf done
    | goto target => exact reads_goto done
    | tableSwitch default low targets => exact reads_tableSwitch reaches fits done
    | lookupSwitch default cases =>
      have width := length_encodeAt done
      rw [Branch.widthAt] at width
      exact reads_lookupSwitch reaches (by omega) done
    | ret kind =>
      cases done
      exact reads_ret kind
    | athrow =>
      cases done
      exact reads_operands (by decide) (.pure _)

/-- Every instruction takes a byte or more. -/
theorem Writes.length_pos {instruction : RawInstruction} {bytes : Bytes}
    (written : Writes offset instruction bytes) : 0 < bytes.length := by
  cases written with
  | straight step => exact step.length_encode ▸ step.width_pos
  | branch done => exact length_encodeAt done ▸ Branch.widthAt_pos _ _ _
  | longGoto target => exact Nat.succ_pos _

end Bytecode

end ClassWeave
