import Mathlib.Data.List.Chain
import ClassWeave.Proofs.Text.ModifiedUtf8

/-!
# The shortest forms

Texts are written in bytes from `0x01` to `0xEF`, and each unit in the shortest form that it has.
Longer forms are read as well, so bytes that are read are those that would be written exactly if no
form in them is longer than its unit needs.
-/

namespace ClassWeave.ModifiedUtf8

/-- Do two bytes begin a form that is longer than its unit needs? A unit below `0x80` needs two bytes
only if it is zero, and one below `0x800` never needs three. -/
def isLongStart (lead second : UInt8) : Bool :=
  lead == 0xC1 || (lead == 0xC0 && second != 0x80) || (lead == 0xE0 && second < 0xA0)

/-- Are all units spelt in their shortest forms? -/
def Shortest (bytes : List UInt8) : Prop :=
  bytes.IsChain fun lead second => isLongStart lead second = false

instance (bytes : List UInt8) : Decidable (Shortest bytes) :=
  inferInstanceAs (Decidable (bytes.IsChain _))

theorem isLongStart_iff {lead second : UInt8} : isLongStart lead second = true ↔
    lead.toNat = 0xC1 ∨ lead.toNat = 0xC0 ∧ second.toNat ≠ 0x80 ∨
      lead.toNat = 0xE0 ∧ second.toNat < 0xA0 := by
  simp [isLongStart, ← UInt8.toNat_inj, UInt8.lt_iff_toNat_lt, or_assoc]

theorem not_isLongStart {lead second : UInt8} : isLongStart lead second = false ↔
    lead.toNat ≠ 0xC1 ∧ (lead.toNat = 0xC0 → second.toNat = 0x80) ∧
      (lead.toNat = 0xE0 → 0xA0 ≤ second.toNat) := by
  rw [← Bool.not_eq_true, isLongStart_iff]
  omega

theorem shortest_cons_cons {lead second : UInt8} {rest : List UInt8} :
    Shortest (lead :: second :: rest) ↔
      isLongStart lead second = false ∧ Shortest (second :: rest) :=
  List.isChain_cons_cons

/-- Only the first byte of a form of two or three bytes can begin a form that is too long. -/
theorem shortest_cons {lead : UInt8} (low : lead.toNat < 0xC0) (rest : List UInt8) :
    Shortest (lead :: rest) ↔ Shortest rest := by
  cases rest with
  | nil => simp [Shortest]
  | cons second rest =>
    rw [shortest_cons_cons, not_isLongStart]
    constructor
    · intro ⟨_, shortest⟩
      exact shortest
    · intro shortest
      exact ⟨by omega, shortest⟩

section Leads

set_option maxRecDepth 1000

theorem lead_two_range : ∀ lead : UInt8, (lead &&& 0xE0 == 0xC0) = true →
    0xC0 ≤ lead.toNat ∧ lead.toNat < 0xE0 := forall_byte (by decide)

theorem lead_three_range : ∀ lead : UInt8, (lead &&& 0xF0 == 0xE0) = true →
    0xE0 ≤ lead.toNat ∧ lead.toNat < 0xF0 := forall_byte (by decide)

theorem continuation_range : ∀ byte : UInt8, isContinuation byte = true →
    0x80 ≤ byte.toNat ∧ byte.toNat < 0xC0 := forall_byte (by decide)

end Leads

private theorem toNat_byte {value : Nat} (small : value < 256) :
    (UInt8.ofNat value).toNat = value := UInt8.toNat_ofNat_of_lt' small

/-- The form of a unit has one of three shapes, told apart by the size of the unit. -/
theorem unitBytes_cases {unit : Nat} (fits : unit < 0x10000) :
    (∃ lead : UInt8, unitBytes unit = [lead] ∧ 0 < lead.toNat ∧ lead.toNat < 0x80) ∨
    (∃ lead second : UInt8, unitBytes unit = [lead, second] ∧
      0xC0 ≤ lead.toNat ∧ lead.toNat < 0xE0 ∧ 0x80 ≤ second.toNat ∧ second.toNat < 0xC0 ∧
      isLongStart lead second = false) ∨
    ∃ lead second third : UInt8, unitBytes unit = [lead, second, third] ∧
      0xE0 ≤ lead.toNat ∧ lead.toNat < 0xF0 ∧ 0x80 ≤ second.toNat ∧ second.toNat < 0xC0 ∧
      0x80 ≤ third.toNat ∧ third.toNat < 0xC0 ∧ isLongStart lead second = false := by
  unfold unitBytes
  split
  · left
    refine ⟨_, rfl, ?_⟩
    rw [toNat_byte (by omega)]
    omega
  · right
    split
    · left
      refine ⟨_, _, rfl, ?_⟩
      rw [not_isLongStart, toNat_byte (by omega), toNat_byte (by omega)]
      omega
    · right
      refine ⟨_, _, _, rfl, ?_⟩
      rw [not_isLongStart, toNat_byte (by omega), toNat_byte (by omega),
        toNat_byte (by omega)]
      omega

/-- No byte of a form is zero, and none begins more than three bytes. -/
theorem unitBytes_range {unit : Nat} (fits : unit < 0x10000) {byte : UInt8}
    (member : byte ∈ unitBytes unit) : 0 < byte.toNat ∧ byte.toNat ≤ 0xEF := by
  obtain ⟨lead, bytes, range⟩ | ⟨lead, second, bytes, range⟩ | ⟨lead, second, third, bytes, range⟩ :=
    unitBytes_cases fits
  all_goals
    rw [bytes] at member
    simp only [List.mem_cons, List.not_mem_nil, or_false] at member
  · subst member
    omega
  · rcases member with rfl | rfl <;> omega
  · rcases member with rfl | rfl | rfl <;> omega

theorem shortest_unitBytes {unit : Nat} (fits : unit < 0x10000) (rest : List UInt8) :
    Shortest (unitBytes unit ++ rest) ↔ Shortest rest := by
  obtain ⟨lead, bytes, range⟩ | ⟨lead, second, bytes, range⟩ | ⟨lead, second, third, bytes, range⟩ :=
    unitBytes_cases fits
  · rw [bytes, List.singleton_append, shortest_cons (by omega)]
  · rw [bytes, List.cons_append, List.singleton_append, shortest_cons_cons, shortest_cons (by omega)]
    simp [range]
  · rw [bytes, List.cons_append, List.cons_append, List.singleton_append, shortest_cons_cons,
      shortest_cons (by omega), shortest_cons (by omega)]
    simp [range]

theorem shortest_flatMap {units : List Nat} (fit : ∀ unit ∈ units, unit < 0x10000) :
    Shortest (units.flatMap unitBytes) := by
  induction units with
  | nil => exact .nil
  | cons unit units ih =>
    obtain ⟨fits, fit⟩ := List.forall_mem_cons.mp fit
    rw [List.flatMap_cons, shortest_unitBytes fits]
    exact ih fit

/-- A byte below `0x80` that is read as a unit is the form of this unit. -/
theorem unitBytes_one {lead : UInt8} (nonzero : lead.toNat ≠ 0) (low : lead.toNat < 0x80) :
    unitBytes lead.toNat = [lead] := by
  rw [unitBytes, if_pos ⟨nonzero, low⟩, UInt8.ofNat_toNat]

theorem unitBytes_two {lead second : UInt8} (leads : 0xC0 ≤ lead.toNat ∧ lead.toNat < 0xE0)
    (continues : 0x80 ≤ second.toNat ∧ second.toNat < 0xC0)
    (short : isLongStart lead second = false) :
    unitBytes (lead.toNat % 32 * 64 + second.toNat % 64) = [lead, second] := by
  rw [not_isLongStart] at short
  have leadValue : 0xC0 + (lead.toNat % 32 * 64 + second.toNat % 64) / 64 = lead.toNat := by omega
  have secondValue : 0x80 + (lead.toNat % 32 * 64 + second.toNat % 64) % 64 = second.toNat := by
    omega
  rw [unitBytes, if_neg (by omega), if_pos (by omega), twoBytes, leadValue, secondValue,
    UInt8.ofNat_toNat, UInt8.ofNat_toNat]

theorem unitBytes_three {lead second third : UInt8}
    (leads : 0xE0 ≤ lead.toNat ∧ lead.toNat < 0xF0)
    (continues : 0x80 ≤ second.toNat ∧ second.toNat < 0xC0)
    (ends : 0x80 ≤ third.toNat ∧ third.toNat < 0xC0) (short : isLongStart lead second = false) :
    unitBytes (lead.toNat % 16 * 4096 + second.toNat % 64 * 64 + third.toNat % 64) =
      [lead, second, third] := by
  rw [not_isLongStart] at short
  generalize unitIs : lead.toNat % 16 * 4096 + second.toNat % 64 * 64 + third.toNat % 64 = unit
  have leadValue : 0xE0 + unit / 4096 = lead.toNat := by omega
  have secondValue : 0x80 + unit / 64 % 64 = second.toNat := by omega
  have thirdValue : 0x80 + unit % 64 = third.toNat := by omega
  rw [unitBytes, if_neg (by omega), if_neg (by omega), threeBytes, leadValue, secondValue,
    thirdValue, UInt8.ofNat_toNat, UInt8.ofNat_toNat, UInt8.ofNat_toNat]

/-- Units that are split off the shortest forms are written as these. -/
theorem unitsFrom_shortest {seen units : List Nat} {bytes : List UInt8}
    (done : unitsFrom seen bytes = some units) (shortest : Shortest bytes) :
    units.flatMap unitBytes = seen.reverse.flatMap unitBytes ++ bytes := by
  fun_induction unitsFrom seen bytes with
  | case1 seen =>
    cases done
    simp
  | case2 seen lead rest isLead ih =>
    have range := lead_range lead isLead
    rw [shortest_cons (by omega)] at shortest
    rw [ih done shortest]
    simp [unitBytes_one range.1 range.2]
  | case3 seen lead _ isLead second rest continues ih =>
    have leads := lead_two_range lead isLead
    have range := continuation_range second continues
    rw [shortest_cons_cons, shortest_cons (by omega)] at shortest
    rw [ih done shortest.2]
    simp [unitBytes_two leads range shortest.1]
  | case6 seen lead _ _ isLead second third rest both ih =>
    rw [Bool.and_eq_true] at both
    have leads := lead_three_range lead isLead
    have secondRange := continuation_range second both.1
    have thirdRange := continuation_range third both.2
    rw [shortest_cons_cons, shortest_cons (by omega), shortest_cons (by omega)] at shortest
    rw [ih done shortest.2]
    simp [unitBytes_three leads secondRange thirdRange shortest.1]
  | _ => cases done

theorem shortest_encode (text : String) : Shortest (encode text) := by
  rw [encode_eq]
  apply shortest_flatMap
  intro unit member
  obtain ⟨c, -, isUnit⟩ := List.mem_flatMap.mp member
  exact unitsOf_lt isUnit

/-- A text that was read is written as the bytes that it was read from exactly if these are the
shortest forms. -/
theorem encode_eq_iff {bytes : List UInt8} {text : String} (decoded : decode bytes = some text) :
    encode text = bytes ↔ Shortest bytes := by
  constructor
  · intro same
    rw [← same]
    exact shortest_encode text
  · intro shortest
    obtain ⟨units, unitsFound, decoded⟩ := Option.bind_eq_some_iff.mp decoded
    obtain ⟨chars, charsFound, decoded⟩ := Option.bind_eq_some_iff.mp decoded
    cases decoded
    obtain ⟨_, rfl, fit, -⟩ := unitsFrom_ok unitsFound
    obtain ⟨_, rfl, same⟩ := charsFrom_ok fit charsFound
    have rebuilt := unitsFrom_shortest unitsFound shortest
    simp only [List.reverse_nil, List.nil_append, List.flatMap_nil] at rebuilt same ⊢
    rw [encode_eq, String.toList_ofList, same, rebuilt]

/-- A text is read back from the bytes that it is written as, none of which is zero or above `0xEF`. -/
theorem encode_readable (text : String) :
    decode (encode text) = some text ∧ ∀ byte ∈ encode text, byte ≠ 0 ∧ byte ≤ 0xEF := by
  constructor
  · exact decode_encode text
  · intro byte member
    rw [encode_eq] at member
    obtain ⟨unit, isUnit, inForm⟩ := List.mem_flatMap.mp member
    obtain ⟨c, -, isUnit⟩ := List.mem_flatMap.mp isUnit
    obtain ⟨positive, bound⟩ := unitBytes_range (unitsOf_lt isUnit) inForm
    constructor
    · rintro rfl
      exact absurd positive (by decide)
    · exact UInt8.le_iff_toNat_le.mpr bound

end ClassWeave.ModifiedUtf8
