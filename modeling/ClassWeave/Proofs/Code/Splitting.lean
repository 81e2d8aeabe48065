import ClassWeave.Proofs.Code.Jumps

/-!
# Splitting bytecode

Instructions that are written one after the other are split up again into the same instructions.
-/

namespace ClassWeave

namespace Bytecode

open Reader

/-- Instructions with their offsets, and the bytes that they take one after the other. -/
inductive Written : (offset : Nat) → List (Nat × RawInstruction) → Bytes → Prop where
  | nil {offset : Nat} : Written offset [] []
  | cons {offset : Nat} {instruction : RawInstruction} {rest : List (Nat × RawInstruction)}
      {bytes others : Bytes} (first : Writes offset instruction bytes)
      (later : Written (offset + bytes.length) rest others) :
      Written offset ((offset, instruction) :: rest) (bytes ++ others)

theorem Written.append {offset : Nat} {listing more : List (Nat × RawInstruction)}
    {bytes others : Bytes} (written : Written offset listing bytes)
    (later : Written (offset + bytes.length) more others) :
    Written offset (listing ++ more) (bytes ++ others) := by
  induction written with
  | nil => exact later
  | cons first _ ih =>
    rw [List.cons_append, List.append_assoc]
    refine .cons first (ih ?_)
    rwa [List.length_append, ← Nat.add_assoc] at later

theorem Written.single {offset : Nat} {instruction : RawInstruction} {bytes : Bytes}
    (written : Writes offset instruction bytes) :
    Written offset [(offset, instruction)] bytes := by
  simpa using Written.cons written .nil

theorem splitFrom_written {size fuel offset : Nat} {listing : List (Nat × RawInstruction)}
    {bytes : Bytes} (written : Written offset listing bytes) (sizeFits : size ≤ 65535)
    (inside : offset + bytes.length ≤ size) (enough : bytes.length ≤ fuel)
    (fits : ∀ entry ∈ listing, KeysFit entry.2)
    (targets : ∀ entry ∈ listing, ∀ target ∈ entry.2.targets, target < size)
    (seen : List (Nat × RawInstruction)) :
    splitFrom size fuel seen ⟨offset, bytes⟩ = .ok (seen.reverse ++ listing) := by
  induction written generalizing fuel seen with
  | nil => cases fuel <;> simp [splitFrom]
  | @cons offset instruction rest bytes others first later ih =>
    have longer := first.length_pos
    simp only [List.length_append] at inside enough
    obtain ⟨fuel, rfl⟩ := Nat.exists_eq_add_of_lt (longer.trans_le ((Nat.le_add_right _ _).trans enough))
    have nonempty : (bytes ++ others).isEmpty = false := by
      simp [List.isEmpty_eq_false_iff, List.ne_nil_of_length_pos longer]
    have ahead := targets _ List.mem_cons_self
    have read := first.reads (by omega) (fun target member =>
      (ahead target member).le.trans sizeFits) (by omega) (fits _ List.mem_cons_self) offset others
    have unfound : instruction.targets.find? (size ≤ ·) = none := by
      simpa using ahead
    rw [splitFrom]
    simp only [nonempty, read, unfound]
    rw [ih (by omega) (by omega) (fun entry member => fits entry (List.mem_cons_of_mem _ member))
      (fun entry member => targets entry (List.mem_cons_of_mem _ member))]
    simp

/-- What is written is split up into the instructions that were written. -/
theorem split_written {listing : List (Nat × RawInstruction)} {code : Bytes}
    (written : Written 0 listing code) (short : code.length ≤ 65535)
    (fits : ∀ entry ∈ listing, KeysFit entry.2)
    (targets : ∀ entry ∈ listing, ∀ target ∈ entry.2.targets, target < code.length) :
    split code = .ok listing :=
  splitFrom_written written short (Nat.zero_add _).le (Nat.le_refl _) fits targets []

end Bytecode

end ClassWeave
