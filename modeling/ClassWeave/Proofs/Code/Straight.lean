import ClassWeave.Code.Bytecode
import ClassWeave.Proofs.Bytes

/-!
# Reading straight-line instructions back

The bytes of an instruction are read as that instruction, whichever of its forms was chosen, and
there are as many of them as its width says.
-/

namespace ClassWeave

namespace Plain

theorem mem_all (op : Plain) : op ∈ all := by
  cases op with
  | push constant => cases constant <;> decide
  | arrayLoad kind | arrayStore kind => cases kind <;> decide
  | stack op => cases op <;> decide
  | arithmetic op kind => cases op <;> cases kind <;> decide
  | negate kind => cases kind <;> decide
  | shift op kind | bitwise op kind => cases op <;> cases kind <;> decide
  | convert conversion => cases conversion <;> decide
  | compareFloats kind nan => cases kind <;> cases nan <;> decide
  | nop | compareLongs | arrayLength | monitorEnter | monitorExit => decide

theorem all_ascending : all.Pairwise fun a b => a.opcode < b.opcode := by decide

private theorem foldl_other {ops : List Plain} {code : Nat}
    (other : ∀ op ∈ ops, op.opcode.toNat ≠ code) (table : Array (Option Plain)) :
    (ops.foldl (fun table op => table.setIfInBounds op.opcode.toNat (some op)) table)[code]? =
      table[code]? := by
  induction ops generalizing table with
  | nil => rfl
  | cons op rest ih =>
    rw [List.foldl_cons, ih fun other' member => other other' (List.mem_cons_of_mem op member),
      Array.getElem?_setIfInBounds_ne (other op List.mem_cons_self)]

private theorem foldl_member {ops : List Plain} (ascending : ops.Pairwise fun a b => a.opcode < b.opcode)
    {op : Plain} (member : op ∈ ops) (table : Array (Option Plain)) (size : table.size = 256) :
    (ops.foldl (fun table op => table.setIfInBounds op.opcode.toNat (some op)) table)[
      op.opcode.toNat]? = some (some op) := by
  induction ops generalizing table with
  | nil => cases member
  | cons head rest ih =>
    obtain ⟨above, ascending⟩ := List.pairwise_cons.mp ascending
    rw [List.foldl_cons]
    rcases List.mem_cons.mp member with rfl | member
    · rw [foldl_other, Array.getElem?_setIfInBounds_self_of_lt]
      · rw [size]
        exact op.opcode.toNat_lt
      · intro other otherMember same
        have higher := UInt8.lt_iff_toNat_lt.mp (above other otherMember)
        omega
    · exact ih ascending member _ (by simpa using size)

/-- An opcode stands for one instruction only. -/
theorem ofOpcode?_opcode (op : Plain) : ofOpcode? op.opcode = some op := by
  rw [ofOpcode?, byOpcode, foldl_member all_ascending op.mem_all _ Array.size_replicate]
  rfl

theorem ofOpcode?_eq_none {code : UInt8} (other : ∀ op ∈ all, op.opcode ≠ code) :
    ofOpcode? code = none := by
  rw [ofOpcode?, byOpcode, foldl_other]
  · rw [Array.getElem?_replicate]
    split <;> rfl
  · intro op member same
    exact other op member (UInt8.toNat_inj.mp same)

end Plain

namespace Bytecode

open Reader

variable {offset : Nat}

theorem reads_plain (op : Plain) :
    Reads (readInstruction offset) [op.opcode] (.straight (.plain op)) := by
  refine (Reads.uint8 op.opcode).andThen ?_
  rw [Plain.ofOpcode?_opcode]
  exact .pure _

/-- The opcodes that have operands are read apart from the others. -/
theorem reads_operands {code : UInt8} {bytes : Bytes} {instruction : RawInstruction}
    (other : ∀ op ∈ Plain.all, op.opcode ≠ code)
    (read : Reads (readOperands offset code) bytes instruction) :
    Reads (readInstruction offset) (code :: bytes) instruction := by
  change Reads _ ([code] ++ bytes) _
  refine (Reads.uint8 code).bind ?_
  rw [Plain.ofOpcode?_eq_none other]
  exact read

private theorem toUInt8_toUInt16 {value : UInt16} (fits : value ≤ 255) :
    value.toUInt8.toUInt16 = value := by
  apply UInt16.toNat_inj.mp
  have bound := UInt16.le_iff_toNat_le.mp fits
  simp at bound ⊢
  omega

private theorem toInt8_toInt16 {amount : Int16} (low : -128 ≤ amount) (high : amount ≤ 127) :
    amount.toInt8.toInt16 = amount := by
  apply Int16.toInt_inj.mp
  have lower := Int16.le_iff_toInt_le.mp low
  have upper := Int16.le_iff_toInt_le.mp high
  simp only [Int8.toInt_toInt16, Int16.toInt_toInt8]
  exact Int.bmod_eq_of_le lower (Int.lt_add_one_of_le upper)

private theorem small_slot {slot : UInt16} (small : slot ≤ 3) :
    slot = 0 ∨ slot = 1 ∨ slot = 2 ∨ slot = 3 := by
  have bound := UInt16.le_iff_toNat_le.mp small
  simp only [← UInt16.toNat_inj]
  simp at bound ⊢
  omega

/-- A slot is read back if each of its three forms is. -/
private theorem reads_slot {short code : UInt8} {access : UInt16 → PoolInstruction}
    (near : ∀ slot, slot = 0 ∨ slot = 1 ∨ slot = 2 ∨ slot = 3 →
      Reads (readInstruction offset) [short + slot.toUInt8] (.straight (access slot)))
    (byte : ∀ slot : UInt8,
      Reads (readInstruction offset) [code, slot] (.straight (access slot.toUInt16)))
    (wide : ∀ slot, Reads (readOperands offset 0xC4) (code :: Bytes.ofUInt16 slot)
      (.straight (access slot))) (slot : UInt16) :
    Reads (readInstruction offset) (PoolInstruction.encodeSlot short code slot)
      (.straight (access slot)) := by
  unfold PoolInstruction.encodeSlot
  split
  · rename_i small
    exact near slot (small_slot small)
  · split
    · rename_i fits
      have read := byte slot.toUInt8
      rwa [toUInt8_toUInt16 fits] at read
    · exact reads_operands (by decide) (wide slot)

theorem reads_load (kind : SlotKind) (slot : UInt16) :
    Reads (readInstruction offset) (PoolInstruction.encode (.load kind slot))
      (.straight (.load kind slot)) := by
  refine reads_slot ?_ ?_ ?_ slot
  · rintro slot (rfl | rfl | rfl | rfl) <;> cases kind <;>
      exact reads_operands (by decide) (.pure _)
  · intro slot
    cases kind <;> exact reads_operands (by decide) ((Reads.uint8 slot).andThen (.pure _))
  · intro slot
    cases kind <;> exact (Reads.uint8 _).bind ((Reads.uint16 slot).andThen (.pure _))

theorem reads_store (kind : SlotKind) (slot : UInt16) :
    Reads (readInstruction offset) (PoolInstruction.encode (.store kind slot))
      (.straight (.store kind slot)) := by
  refine reads_slot ?_ ?_ ?_ slot
  · rintro slot (rfl | rfl | rfl | rfl) <;> cases kind <;>
      exact reads_operands (by decide) (.pure _)
  · intro slot
    cases kind <;> exact reads_operands (by decide) ((Reads.uint8 slot).andThen (.pure _))
  · intro slot
    cases kind <;> exact (Reads.uint8 _).bind ((Reads.uint16 slot).andThen (.pure _))

theorem reads_increment (slot : UInt16) (amount : Int16) :
    Reads (readInstruction offset) (PoolInstruction.encode (.increment slot amount))
      (.straight (.increment slot amount)) := by
  rw [PoolInstruction.encode]
  split
  · rename_i fits
    simp only [PoolInstruction.incrementFits, Bool.and_eq_true, decide_eq_true_eq] at fits
    obtain ⟨⟨slotFits, low⟩, high⟩ := fits
    have read : Reads (readOperands offset 0x84) [slot.toUInt8, amount.toInt8.toUInt8]
        (.straight (.increment slot.toUInt8.toUInt16 amount.toInt8.toInt16)) :=
      (Reads.uint8 _).bind ((Reads.int8 _).andThen (.pure _))
    rw [toUInt8_toUInt16 slotFits, toInt8_toInt16 low high] at read
    exact reads_operands (by decide) read
  · refine reads_operands (by decide) ?_
    exact (Reads.uint8 _).bind ((Reads.uint16 slot).bind ((Reads.int16 amount).andThen (.pure _)))

theorem reads_loadConstant (index : UInt16) :
    Reads (readInstruction offset) (PoolInstruction.encode (.loadConstant index))
      (.straight (.loadConstant index)) := by
  rw [PoolInstruction.encode]
  split
  · rename_i fits
    have read : Reads (readOperands offset 0x12) [index.toUInt8]
        (.straight (.loadConstant index.toUInt8.toUInt16)) := (Reads.uint8 _).andThen (.pure _)
    rw [toUInt8_toUInt16 fits] at read
    exact reads_operands (by decide) read
  · exact reads_operands (by decide) ((Reads.uint16 index).andThen (.pure _))

theorem reads_invoke (kind : InvokeKind) (index : UInt16) :
    Reads (readInstruction offset) (PoolInstruction.encode (.invoke kind index))
      (.straight (.invoke kind index)) := by
  cases kind with
  | virtual | special | static =>
    exact reads_operands (by decide) ((Reads.uint16 index).andThen (.pure _))
  | interface slots =>
    refine reads_operands (by decide) ?_
    exact (Reads.uint16 index).bind ((Reads.uint8 slots).bind ((Reads.uint8 0).andThen (.pure _)))

/-- The bytes of an instruction are read as that instruction. -/
theorem reads_straight (instruction : PoolInstruction) :
    Reads (readInstruction offset) instruction.encode (.straight instruction) := by
  cases instruction with
  | plain op => exact reads_plain op
  | pushByte value => exact reads_operands (by decide) ((Reads.int8 value).andThen (.pure _))
  | pushShort value => exact reads_operands (by decide) ((Reads.int16 value).andThen (.pure _))
  | loadConstant index => exact reads_loadConstant index
  | loadWideConstant index =>
    exact reads_operands (by decide) ((Reads.uint16 index).andThen (.pure _))
  | load kind slot => exact reads_load kind slot
  | store kind slot => exact reads_store kind slot
  | increment slot amount => exact reads_increment slot amount
  | field op index =>
    cases op <;> exact reads_operands (by decide) ((Reads.uint16 index).andThen (.pure _))
  | invoke kind index => exact reads_invoke kind index
  | invokeDynamic index =>
    refine reads_operands (by decide) ?_
    exact (Reads.uint16 index).bind ((Reads.uint16 0).andThen (.pure _))
  | newPrimitiveArray type =>
    refine reads_operands (by decide) ?_
    cases type <;> exact (Reads.uint8 _).andThen (.pure _)
  | onClass op index =>
    cases op <;> exact reads_operands (by decide) ((Reads.uint16 index).andThen (.pure _))
  | newMultiArray index dimensions =>
    refine reads_operands (by decide) ?_
    exact (Reads.uint16 index).bind ((Reads.uint8 dimensions).andThen (.pure _))

end Bytecode

namespace PoolInstruction

private theorem length_encodeSlot (short code : UInt8) (slot : UInt16) :
    (encodeSlot short code slot).length = if slot ≤ 3 then 1 else if slot ≤ 255 then 2 else 4 := by
  unfold encodeSlot
  split
  · rfl
  · split <;> rfl

/-- An instruction is as wide as its bytes. -/
theorem length_encode (instruction : PoolInstruction) :
    instruction.encode.length = instruction.width := by
  cases instruction with
  | load kind slot | store kind slot => exact length_encodeSlot _ _ slot
  | loadConstant index | increment slot amount =>
    simp only [encode, width]
    split <;> rfl
  | invoke kind index => cases kind <;> rfl
  | _ => rfl

theorem width_pos (instruction : PoolInstruction) : 0 < instruction.width := by
  rw [← length_encode]
  cases instruction with
  | load kind slot | store kind slot =>
    rw [encode, length_encodeSlot]
    split
    · decide
    · split <;> decide
  | loadConstant index | increment slot amount =>
    simp only [encode]
    split <;> exact Nat.succ_pos _
  | invoke kind index => cases kind <;> exact Nat.succ_pos _
  | _ => exact Nat.succ_pos _

end PoolInstruction

end ClassWeave
