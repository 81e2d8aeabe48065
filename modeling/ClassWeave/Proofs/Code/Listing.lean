import ClassWeave.Proofs.Code.Splitting

/-!
# What splitting yields

Whatever bytes are split, the instructions follow each other inside the code, each is read from the
bytes at its offset, and their tables are ones that a class file can hold.
-/

namespace ClassWeave

/-- The second input is what is left of the first one after a number of bytes. -/
def Input.Precedes (input rest : Input) : Prop :=
  ∃ taken : Bytes, input.ahead = taken ++ rest.ahead ∧
    rest.position = input.position + taken.length

namespace Input.Precedes

variable {first middle last : Input}

theorem refl (input : Input) : input.Precedes input := ⟨[], rfl, rfl⟩

theorem trans (earlier : first.Precedes middle) (later : middle.Precedes last) :
    first.Precedes last := by
  obtain ⟨taken, ahead, position⟩ := earlier
  obtain ⟨more, aheadThen, positionThen⟩ := later
  refine ⟨taken ++ more, by rw [ahead, aheadThen, List.append_assoc], ?_⟩
  rw [positionThen, position, List.length_append, Nat.add_assoc]

theorem position_le (precedes : first.Precedes last) : first.position ≤ last.position := by
  obtain ⟨taken, -, position⟩ := precedes
  omega

theorem size_eq (precedes : first.Precedes last) :
    first.position + first.ahead.length = last.position + last.ahead.length := by
  obtain ⟨taken, ahead, position⟩ := precedes
  rw [ahead, position, List.length_append, Nat.add_assoc]

/-- What is left of the rest of some bytes is the rest of them, too. -/
theorem drop_eq {bytes : Bytes} (isRest : first.ahead = bytes.drop first.position)
    (precedes : first.Precedes last) : last.ahead = bytes.drop last.position := by
  obtain ⟨taken, ahead, position⟩ := precedes
  rw [position, ← List.drop_drop, ← isRest, ahead, List.drop_left]

end Input.Precedes

namespace Reader

variable {α β : Type} {input rest : Input}

/-- The reader only goes forwards, and answers with what satisfies a predicate. -/
def Gives (holds : α → Prop) (reader : Reader α) : Prop :=
  ∀ ⦃input rest : Input⦄ ⦃value : α⦄, reader input = .ok (value, rest) →
    input.Precedes rest ∧ holds value

theorem Gives.pure {holds : α → Prop} {value : α} (held : holds value) :
    Gives holds (pure value) := by
  intro input rest value done
  cases done
  exact ⟨.refl input, held⟩

theorem Gives.fail (holds : α → Prop) (cause : Fault) : Gives holds (Reader.fail cause) := by
  intro input rest value done
  cases done

theorem Gives.bind {first : α → Prop} {second : β → Prop} {reader : Reader α}
    {next : α → Reader β} (gives : Gives first reader)
    (later : ∀ value, first value → Gives second (next value)) :
    Gives second (reader >>= next) := by
  intro input rest result done
  obtain ⟨value, middle, read, done⟩ := bind_ok.mp done
  obtain ⟨ahead, held⟩ := gives read
  obtain ⟨further, result⟩ := later value held done
  exact ⟨ahead.trans further, result⟩

theorem gives_uint8 : Gives (fun _ => True) uint8 := by
  rintro ⟨position, ahead⟩ rest value done
  cases ahead with
  | nil => cases done
  | cons byte ahead =>
    cases done
    exact ⟨⟨[_], rfl, rfl⟩, trivial⟩

theorem gives_uint16 : Gives (fun _ => True) uint16 :=
  gives_uint8.bind fun _ _ => gives_uint8.bind fun _ _ => .pure trivial

theorem gives_int8 : Gives (fun _ => True) int8 := gives_uint8.bind fun _ _ => .pure trivial

theorem gives_int16 : Gives (fun _ => True) int16 := gives_uint16.bind fun _ _ => .pure trivial

theorem gives_int32 : Gives (fun _ => True) int32 :=
  (gives_uint16.bind fun _ _ => gives_uint16.bind fun _ _ => .pure trivial : Gives (fun _ => True)
    uint32).bind fun _ _ => .pure trivial

theorem gives_timesFrom {item : Reader α} (gives : Gives (fun _ => True) item) (seen : List α)
    (count : Nat) :
    Gives (fun values => values.length = seen.length + count) (timesFrom item seen count) := by
  induction count generalizing seen with
  | zero =>
    intro input rest values done
    cases done
    exact ⟨.refl input, List.length_reverse⟩
  | succ count ih =>
    intro input rest values done
    simp only [timesFrom] at done
    split at done
    · cases done
    · rename_i value middle read
      obtain ⟨ahead, -⟩ := gives read
      obtain ⟨further, length⟩ := ih (value :: seen) done
      refine ⟨ahead.trans further, ?_⟩
      simpa [Nat.add_assoc, Nat.add_comm 1] using length

theorem gives_times {item : Reader α} (gives : Gives (fun _ => True) item) (count : Nat) :
    Gives (fun values => values.length = count) (times item count) := by
  simpa [times] using gives_timesFrom gives [] count

end Reader

namespace Bytecode

open Reader

variable (offset : Nat)

/-- Is the instruction a jump through a table of all keys in a range? -/
def IsTableSwitch : RawInstruction → Prop
  | .branch (.tableSwitch _ _ _) => True
  | _ => False

/-- Only the keys of such a table have to fit. -/
theorem keysFit_of_not {instruction : RawInstruction} (other : ¬ IsTableSwitch instruction) :
    KeysFit instruction := by
  cases instruction with
  | straight => trivial
  | branch jump =>
    cases jump with
    | tableSwitch => exact (other trivial).elim
    | _ => trivial

/-- The reader gives an instruction without a table of all keys in a range. -/
def GivesOther (reader : Reader RawInstruction) : Prop :=
  Gives (fun instruction => ¬ IsTableSwitch instruction) reader

theorem gives_straight (step : PoolInstruction) : GivesOther (straight step) := .pure id

theorem gives_jumpTo (distance : Int) : Gives (fun _ => True) (jumpTo offset distance) := by
  simp only [jumpTo]
  split
  · exact .fail _ _
  · exact .pure trivial

theorem gives_shortJump : Gives (fun _ => True) (shortJump offset) :=
  gives_int16.bind fun _ _ => gives_jumpTo _ _

theorem gives_wideJump : Gives (fun _ => True) (wideJump offset) :=
  gives_int32.bind fun _ _ => gives_jumpTo _ _

theorem gives_conditional (test : Test) : GivesOther (conditional offset test) :=
  (gives_shortJump offset).bind fun _ _ => .pure id

/-- The number of targets is what the highest key and the lowest one say. -/
theorem gives_tableSwitch : Gives KeysFit (readTableSwitch offset) := by
  refine (gives_times gives_uint8 _).bind fun _ _ => (gives_wideJump _).bind fun _ _ =>
    gives_int32.bind fun low _ => gives_int32.bind fun high _ => ?_
  split
  · exact .fail _ _
  · rename_i ordered
    rw [Int32.lt_iff_toInt_lt] at ordered
    have highest := high.toInt_lt
    refine (gives_times (gives_wideJump _) _).bind fun targets length => .pure ?_
    change 0 < targets.length ∧ low.toInt + targets.length ≤ 2147483648
    omega

theorem gives_lookupSwitch : GivesOther (readLookupSwitch offset) := by
  refine (gives_times gives_uint8 _).bind fun _ _ => (gives_wideJump _).bind fun _ _ =>
    gives_int32.bind fun count _ => ?_
  split
  · exact .fail _ _
  · have case : Gives (fun _ => True) (do
        let key ← int32
        return (key, ← wideJump offset)) :=
      gives_int32.bind fun _ _ => (gives_wideJump _).bind fun _ _ => .pure trivial
    exact (gives_times case _).bind fun _ _ => .pure id

theorem gives_newArray : GivesOther (readNewArray offset) := by
  refine gives_uint8.bind fun _ _ => ?_
  split
  · exact gives_straight _
  · exact .fail _ _

theorem gives_wide : GivesOther (readWide offset) := by
  refine gives_uint8.bind fun opcode _ => gives_uint16.bind fun slot _ => ?_
  simp only
  split
  · exact gives_straight _
  · split
    · exact gives_straight _
    · split
      · exact gives_int16.bind fun _ _ => gives_straight _
      · exact .fail _ _

/-- Every opcode is followed by what its instruction needs. -/
theorem gives_operands {opcode : UInt8} (other : opcode ≠ 0xAA) :
    GivesOther (readOperands offset opcode) := by
  have byte {next : UInt8 → Reader RawInstruction} (later : ∀ value, GivesOther (next value)) :
      GivesOther (uint8 >>= next) := gives_uint8.bind fun value _ => later value
  have index {next : UInt16 → Reader RawInstruction} (later : ∀ value, GivesOther (next value)) :
      GivesOther (uint16 >>= next) := gives_uint16.bind fun value _ => later value
  have jump {reader : Reader Nat} (gives : Gives (fun _ => True) reader) :
      GivesOther (do return .branch (.goto (← reader))) := gives.bind fun _ _ => .pure id
  unfold readOperands
  simp only
  repeat' split
  all_goals first
    | exact gives_straight _
    | exact byte fun _ => gives_straight _
    | exact index fun _ => gives_straight _
    | exact gives_conditional _ _
    | exact .fail _ _
    | exact .pure id
    | exact gives_int8.bind fun _ _ => gives_straight _
    | exact gives_int16.bind fun _ _ => gives_straight _
    | exact byte fun _ => gives_int8.bind fun _ _ => gives_straight _
    | exact index fun _ => byte fun _ => gives_straight _
    | exact index fun _ => byte fun _ => byte fun _ => gives_straight _
    | exact index fun _ => index fun _ => gives_straight _
    | exact jump (gives_shortJump _)
    | exact jump (gives_wideJump _)
    | exact absurd rfl other
    | exact gives_lookupSwitch _
    | exact gives_newArray _
    | exact gives_wide _

/-- What an instruction that was read is: one without a table of all keys in a range, or else it is
such a table that follows its opcode. -/
theorem readInstruction_cases {input rest : Input} {instruction : RawInstruction}
    (done : readInstruction offset input = .ok (instruction, rest)) :
    ∃ opcode middle, uint8 input = .ok (opcode, middle) ∧
      (middle.Precedes rest ∧ ¬ IsTableSwitch instruction ∨
        opcode = 0xAA ∧ readTableSwitch offset middle = .ok (instruction, rest)) := by
  obtain ⟨opcode, middle, read, done⟩ := bind_ok.mp done
  refine ⟨opcode, middle, read, ?_⟩
  cases found : Plain.ofOpcode? opcode with
  | some op =>
    simp only [found] at done
    exact .inl (gives_straight _ done)
  | none =>
    simp only [found] at done
    by_cases table : opcode = 0xAA
    · subst table
      exact .inr ⟨rfl, done⟩
    · exact .inl (gives_operands offset table done)

/-- An instruction takes a byte or more. -/
theorem readInstruction_ok {input rest : Input} {instruction : RawInstruction}
    (done : readInstruction offset input = .ok (instruction, rest)) :
    input.position < rest.position ∧ input.Precedes rest ∧ KeysFit instruction := by
  obtain ⟨opcode, middle, read, later⟩ := readInstruction_cases offset done
  have taken : middle.position = input.position + 1 := by
    obtain ⟨position, ahead⟩ := input
    cases ahead with
    | nil => cases read
    | cons byte ahead =>
      cases read
      rfl
  have remainder : middle.Precedes rest ∧ KeysFit instruction := by
    rcases later with ⟨precedes, other⟩ | ⟨-, table⟩
    · exact ⟨precedes, keysFit_of_not other⟩
    · exact gives_tableSwitch offset table
  have forwards := remainder.1.position_le
  exact ⟨by omega, (gives_uint8 read).1.trans remainder.1, remainder.2⟩

/-- The instructions are in the code, one after the other. -/
structure Listed (size : Nat) (listing : List (Nat × RawInstruction)) : Prop where
  ascending : (listing.map Prod.fst).Pairwise (· < ·)
  inside : ∀ entry ∈ listing, entry.1 < size
  fits : ∀ entry ∈ listing, KeysFit entry.2

private theorem splitFrom_ok {size fuel : Nat} {seen listing : List (Nat × RawInstruction)}
    {input : Input} (whole : input.position + input.ahead.length = size)
    (before : Listed input.position seen.reverse)
    (done : splitFrom size fuel seen input = .ok listing) : Listed size listing := by
  have last : Listed size seen.reverse := ⟨before.ascending, fun entry member =>
    (before.inside entry member).trans_le (whole ▸ Nat.le_add_right _ _), before.fits⟩
  induction fuel generalizing seen input with
  | zero =>
    cases done
    exact last
  | succ fuel ih =>
    rw [splitFrom] at done
    split at done
    · cases done
      exact last
    · rename_i more
      simp only at done
      split at done
      · cases done
      · rename_i instruction rest read
        split at done
        · cases done
        · obtain ⟨ahead, precedes, fits⟩ := readInstruction_ok _ read
          have wholeThen := precedes.size_eq ▸ whole
          have here : Listed rest.position ((input.position, instruction) :: seen).reverse := by
            obtain ⟨ascending, inside, earlier⟩ := before
            rw [List.reverse_cons]
            refine ⟨?_, ?_, ?_⟩
            · rw [List.map_append, List.pairwise_append]
              refine ⟨ascending, List.pairwise_singleton _ _, fun offset member other isLast => ?_⟩
              obtain ⟨entry, listed, rfl⟩ := List.mem_map.mp member
              cases List.mem_singleton.mp isLast
              exact inside entry listed
            · intro entry member
              rcases List.mem_append.mp member with listed | isLast
              · exact (inside entry listed).trans ahead
              · cases List.mem_singleton.mp isLast
                exact ahead
            · intro entry member
              rcases List.mem_append.mp member with listed | isLast
              · exact earlier entry listed
              · cases List.mem_singleton.mp isLast
                exact fits
          refine ih wholeThen here done ⟨here.ascending, fun entry member => ?_, here.fits⟩
          have bound := here.inside entry member
          omega

theorem split_ok {code : Bytes} {listing : List (Nat × RawInstruction)}
    (done : split code = .ok listing) : Listed code.length listing :=
  splitFrom_ok (Nat.zero_add _) ⟨.nil, by simp, by simp⟩ done

/-- The instruction is read from the bytes of the code at its offset. -/
def ReadFrom (code : Bytes) (entry : Nat × RawInstruction) : Prop :=
  ∃ rest, readInstruction entry.1 ⟨entry.1, code.drop entry.1⟩ = .ok (entry.2, rest)

private theorem splitFrom_reads {code : Bytes} {size fuel : Nat}
    {seen listing : List (Nat × RawInstruction)} {input : Input}
    (inside : input.ahead = code.drop input.position) (before : ∀ entry ∈ seen, ReadFrom code entry)
    (done : splitFrom size fuel seen input = .ok listing) :
    ∀ entry ∈ listing, ReadFrom code entry := by
  have last : ∀ entry ∈ seen.reverse, ReadFrom code entry := fun entry member =>
    before entry (List.mem_reverse.mp member)
  induction fuel generalizing seen input with
  | zero =>
    cases done
    exact last
  | succ fuel ih =>
    rw [splitFrom] at done
    split at done
    · cases done
      exact last
    · simp only at done
      split at done
      · cases done
      · rename_i instruction rest read
        split at done
        · cases done
        · have here : ReadFrom code (input.position, instruction) := by
            refine ⟨rest, ?_⟩
            rw [← inside]
            exact read
          have all : ∀ entry ∈ (input.position, instruction) :: seen, ReadFrom code entry :=
            List.forall_mem_cons.mpr ⟨here, before⟩
          refine ih ?_ all done fun entry member => all entry (List.mem_reverse.mp member)
          exact (readInstruction_ok _ read).2.1.drop_eq inside

theorem split_reads {code : Bytes} {listing : List (Nat × RawInstruction)}
    (done : split code = .ok listing) : ∀ entry ∈ listing, ReadFrom code entry :=
  splitFrom_reads rfl (by simp) done

end Bytecode

end ClassWeave
