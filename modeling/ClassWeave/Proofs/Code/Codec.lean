import ClassWeave.Proofs.Code.Jumps

/-!
# The codec of instructions

The widths of instructions, the bytes that they are written as and the instructions that bytes are
read as are three tables. They agree for every instruction, in whichever of its forms and at
whatever offset it is written, and whatever bytes come after it.
-/

namespace ClassWeave

namespace Branch

/-- What has to be in range for a branch to be written: the distances in the bytes that they have,
and the numbers that a table starts with. A widened conditional jump reaches its target from the
long `goto` after the negated test. -/
def WritableAt (offset : Nat) (widened : Bool) : Branch Nat → Prop
  | jumpIf _ target =>
    if widened then Reaches (offset + 3) target else isShort (distance offset target) = true
  | goto target =>
    if widened then Reaches offset target else isShort (distance offset target) = true
  | tableSwitch default low targets => (∀ target ∈ default :: targets, Reaches offset target) ∧
    0 < targets.length ∧ low.toInt + targets.length ≤ 2147483647
  | lookupSwitch default cases =>
    (∀ target ∈ default :: cases.map Prod.snd, Reaches offset target) ∧ cases.length ≤ 2147483647
  | ret _ | athrow => True

/-- The instructions that a branch is read back as. -/
def readBackAt (offset : Nat) (widened : Bool) : Branch Nat → List RawInstruction
  | jumpIf test target =>
    if widened then [.branch (.jumpIf test.negate (offset + 8)), .branch (.goto target)]
    else [.branch (.jumpIf test target)]
  | jump => [.branch jump]

variable {offset : Nat}

theorem encodeShort_of_short {opcode : UInt8} {target : Nat}
    (short : isShort (distance offset target) = true) :
    ∃ bytes, encodeShort opcode offset target = .ok bytes := by
  simp [encodeShort, short]

/-- The target of a widened jump is of no concern to the negated test, which goes over it. -/
theorem isShort_skip : isShort (distance offset (offset + 8)) = true := by
  simp [isShort, distance]

/-- A branch whose numbers are in range is written. -/
theorem WritableAt.encodes {jump : Branch Nat} {widened : Bool}
    (writable : jump.WritableAt offset widened) :
    ∃ bytes, jump.encodeAt offset widened = .ok bytes := by
  cases jump with
  | jumpIf test target =>
    cases widened with
    | true =>
      have ⟨skip, skipFound⟩ :
          ∃ bytes, encodeShort test.negate.opcode offset (offset + 8) = .ok bytes :=
        encodeShort_of_short isShort_skip
      exact ⟨_, Outcome.bind_ok.mpr ⟨skip, skipFound, rfl⟩⟩
    | false => exact encodeShort_of_short writable
  | goto target =>
    cases widened with
    | true => exact ⟨_, rfl⟩
    | false => exact encodeShort_of_short writable
  | tableSwitch | lookupSwitch | ret | athrow => exact ⟨_, rfl⟩

end Branch

namespace Bytecode

open Reader

/-- The bytes are those of the instructions, one after the other, the first one at the offset. -/
inductive ReadsInTurn : (offset : Nat) → Bytes → List RawInstruction → Prop where
  | nil {offset : Nat} : ReadsInTurn offset [] []
  | cons {offset : Nat} {bytes others : Bytes} {instruction : RawInstruction}
      {rest : List RawInstruction} (first : Reads (readInstruction offset) bytes instruction)
      (later : ReadsInTurn (offset + bytes.length) others rest) :
      ReadsInTurn offset (bytes ++ others) (instruction :: rest)

theorem ReadsInTurn.single {offset : Nat} {bytes : Bytes} {instruction : RawInstruction}
    (read : Reads (readInstruction offset) bytes instruction) :
    ReadsInTurn offset bytes [instruction] := by
  simpa using ReadsInTurn.cons read .nil

variable {offset : Nat} {jump : Branch Nat} {bytes : Bytes}

/-- The negated test takes three bytes, and the long `goto` after them is read on its own. -/
theorem reads_widenedJumpIf {test : Test} {target : Nat}
    (reaches : Branch.Reaches (offset + 3) target)
    (done : Branch.encodeAt offset true (.jumpIf test target) = .ok bytes) :
    ReadsInTurn offset bytes [.branch (.jumpIf test.negate (offset + 8)), .branch (.goto target)] := by
  obtain ⟨skip, skipFound, same⟩ := Outcome.bind_ok.mp done
  cases Outcome.pure_ok.mp same
  refine .cons (reads_jumpIf skipFound) ?_
  rw [length_encodeShort skipFound]
  exact .single (reads_longGoto reaches)

theorem reads_encodeAt {widened : Bool} (writable : jump.WritableAt offset widened)
    (done : jump.encodeAt offset widened = .ok bytes) :
    ReadsInTurn offset bytes (jump.readBackAt offset widened) := by
  cases jump with
  | jumpIf test target =>
    cases widened with
    | true => exact reads_widenedJumpIf writable done
    | false => exact .single (reads_jumpIf done)
  | goto target =>
    cases widened with
    | true =>
      cases done
      exact .single (reads_longGoto writable)
    | false => exact .single (reads_goto done)
  | tableSwitch default low targets =>
    obtain ⟨reaches, nonempty, inRange⟩ := writable
    exact .single (reads_tableSwitch reaches ⟨nonempty, Int.le_trans inRange (by decide)⟩ done)
  | lookupSwitch default cases =>
    exact .single (reads_lookupSwitch writable.1 writable.2 done)
  | ret kind =>
    cases done
    exact .single (reads_ret kind)
  | athrow =>
    cases done
    exact .single (reads_operands (by decide) (.pure _))

/-- What is written is as long as its width says, and read back as the same instruction, with
nothing of what follows it. Only a widened conditional jump comes back as two instructions. -/
theorem codec_roundTrips :
    (∀ (step : PoolInstruction) (offset : Nat), step.encode.length = step.width ∧
      Reads (readInstruction offset) step.encode (.straight step)) ∧
    ∀ (jump : Branch Nat) (offset : Nat) (widened : Bool), jump.WritableAt offset widened →
      ∃ bytes, jump.encodeAt offset widened = .ok bytes ∧
        bytes.length = jump.widthAt offset widened ∧
        ReadsInTurn offset bytes (jump.readBackAt offset widened) := by
  constructor
  · intro step offset
    exact ⟨step.length_encode, reads_straight step⟩
  · intro jump offset widened writable
    obtain ⟨bytes, done⟩ := writable.encodes
    exact ⟨bytes, done, length_encodeAt done, reads_encodeAt writable done⟩

/-- A conditional jump that goes as far as one can, and a switch with three bytes of padding whose
keys go up to the last but one of all numbers. -/
theorem farthest_roundTrip :
    (Branch.WritableAt 2 true (.jumpIf (.ints .lt) 2147483652) ∧
      ∃ bytes, Branch.encodeAt 2 true (.jumpIf (.ints .lt) 2147483652) = .ok bytes ∧
        bytes.length = 8 ∧ ReadsInTurn 2 bytes
          [.branch (.jumpIf (.ints .ge) 10), .branch (.goto 2147483652)]) ∧
    Branch.WritableAt 4 false (.tableSwitch 0 2147483645 [9, 4]) ∧
      ∃ bytes, Branch.encodeAt 4 false (.tableSwitch 0 2147483645 [9, 4]) = .ok bytes ∧
        bytes.length = 24 ∧ ReadsInTurn 4 bytes
          [.branch (.tableSwitch 0 2147483645 [9, 4])] := by
  have farthest : Branch.WritableAt 2 true (.jumpIf (.ints .lt) 2147483652) := by
    simp [Branch.WritableAt, Branch.Reaches, Branch.distance]
  have topmost : Branch.WritableAt 4 false (.tableSwitch 0 2147483645 [9, 4]) := by
    refine ⟨?_, by decide, by decide⟩
    simp [Branch.Reaches, Branch.distance]
  exact ⟨⟨farthest, codec_roundTrips.2 _ _ _ farthest⟩, topmost, codec_roundTrips.2 _ _ _ topmost⟩

end Bytecode

end ClassWeave
