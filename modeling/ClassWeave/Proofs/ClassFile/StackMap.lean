import ClassWeave.ClassFile.StackMap
import ClassWeave.Proofs.Bytes

/-!
# Stack maps are read back

A reader for stack maps as class files hold them. The first byte of an entry tells its kind, and
with it the distance of some kinds and the number of locals that go or come for others. The entry
that is chosen for a frame says how to get there from the frame before it, and lists the whole frame
only where no other entry does.
-/

namespace ClassWeave

open Reader (Reads)

namespace VerificationType

/-- Reads the rest of the type that the tag announces. -/
def readTagged (tag : UInt8) : Reader StoredType :=
  match tag with
  | 0 => return top
  | 1 => return integer
  | 2 => return float
  | 3 => return double
  | 4 => return long
  | 5 => return null
  | 6 => return uninitializedThis
  | 7 => return object (← Reader.uint16)
  | 8 => return uninitialized (← Reader.uint16)
  | _ => Reader.fail (.io .invalidData)

def read : Reader StoredType := do readTagged (← Reader.uint8)

theorem reads (type : StoredType) : Reads read type.encode type := by
  cases type with
  | object index => exact (Reads.uint8 7).bind ((Reads.uint16 index).andThen (.pure _))
  | uninitialized offset => exact (Reads.uint8 8).bind ((Reads.uint16 offset).andThen (.pure _))
  | _ => exact (Reads.uint8 _).andThen (.pure _)

end VerificationType

namespace StackMapEntry

/-- Reads the rest of the entry that the tag announces. The tags from 128 to 246 are reserved. -/
def readTagged (tag : UInt8) : Reader StackMapEntry :=
  if tag ≤ 63 then return same tag.toUInt16
  else if tag ≤ 127 then return sameOneStack (tag - 64).toUInt16 (← VerificationType.read)
  else if tag ≤ 246 then Reader.fail (.io .invalidData)
  else if tag = 247 then return sameOneStack (← Reader.uint16) (← VerificationType.read)
  else if tag ≤ 250 then return chop (← Reader.uint16) (251 - tag)
  else if tag = 251 then return same (← Reader.uint16)
  else if tag ≤ 254 then do
    let delta ← Reader.uint16
    return append delta (← Reader.times VerificationType.read (tag - 251).toNat)
  else do
    let delta ← Reader.uint16
    let locals ← Reader.list VerificationType.read
    return full delta locals (← Reader.list VerificationType.read)

def read : Reader StackMapEntry := do readTagged (← Reader.uint8)

/-- Reads a whole stack map, the content of an attribute. -/
def readMap : Reader (List StackMapEntry) := Reader.list read

/-- Is there a code for the entry, and can all lists in it be counted in 16 bits? -/
def Fits : StackMapEntry → Prop
  | full _ locals stack => locals.length < 2 ^ 16 ∧ stack.length < 2 ^ 16
  | entry => entry.isInRange = true

section Near

variable {delta : UInt16}

/-- A short distance is kept when it goes into one byte. -/
private theorem toNat_near (near : delta ≤ 63) : delta.toUInt8.toNat = delta.toNat := by
  have bound : delta.toNat ≤ 63 := UInt16.le_iff_toNat_le.mp near
  rw [UInt16.toNat_toUInt8]
  omega

private theorem readTagged_same (near : delta ≤ 63) :
    readTagged delta.toUInt8 = pure (same delta) := by
  have bound : delta.toNat ≤ 63 := UInt16.le_iff_toNat_le.mp near
  have low : delta.toUInt8 ≤ 63 := UInt8.le_iff_toNat_le.mpr (by rwa [toNat_near near])
  have kept : delta.toUInt8.toUInt16 = delta := by
    rw [← UInt16.toNat_inj, UInt8.toNat_toUInt16, toNat_near near]
  rw [readTagged, if_pos low, kept]

private theorem readTagged_sameOneStack (near : delta ≤ 63) :
    readTagged (delta.toUInt8 + 64) = do
      return sameOneStack delta (← VerificationType.read) := by
  have bound : delta.toNat ≤ 63 := UInt16.le_iff_toNat_le.mp near
  have tag : (delta.toUInt8 + 64).toNat = delta.toNat + 64 := by
    rw [UInt8.toNat_add, toNat_near near]
    exact Nat.mod_eq_of_lt (by change delta.toNat + 64 < 256; omega)
  have high : ¬ delta.toUInt8 + 64 ≤ 63 := fun low => by
    have := UInt8.le_iff_toNat_le.mp low
    rw [tag] at this
    change delta.toNat + 64 ≤ 63 at this
    omega
  have low : delta.toUInt8 + 64 ≤ 127 := UInt8.le_iff_toNat_le.mpr (by
    rw [tag]
    change delta.toNat + 64 ≤ 127
    omega)
  have kept : (delta.toUInt8 + 64 - 64).toUInt16 = delta := by
    rw [UInt8.add_sub_cancel, ← UInt16.toNat_inj, UInt8.toNat_toUInt16, toNat_near near]
  rw [readTagged, if_neg high, if_pos low, kept]

end Near

theorem Fits.reads {entry : StackMapEntry} (fits : entry.Fits) :
    Reads read entry.encode entry := by
  cases entry with
  | same delta =>
    simp only [encode]
    split
    · rename_i near
      refine (Reads.uint8 _).andThen ?_
      rw [readTagged_same near]
      exact .pure _
    · exact (Reads.uint8 251).bind ((Reads.uint16 delta).andThen (.pure _))
  | sameOneStack delta value =>
    simp only [encode]
    split
    · rename_i near
      refine (Reads.uint8 _).bind ?_
      rw [readTagged_sameOneStack near]
      exact value.reads.andThen (.pure _)
    · exact (Reads.uint8 247).bind ((Reads.uint16 delta).bind (value.reads.andThen (.pure _)))
  | chop delta count =>
    obtain rfl | rfl | rfl : count = 1 ∨ count = 2 ∨ count = 3 := by
      simp only [Fits, isInRange, Bool.and_eq_true, decide_eq_true_eq] at fits
      obtain ⟨some, few⟩ := fits
      simp only [← UInt8.toNat_inj, UInt8.lt_iff_toNat_lt] at some few ⊢
      change 0 < count.toNat at some
      change count.toNat < 4 at few
      change count.toNat = 1 ∨ count.toNat = 2 ∨ count.toNat = 3
      omega
    all_goals exact (Reads.uint8 _).bind ((Reads.uint16 delta).andThen (.pure _))
  | append delta added =>
    have number : ∀ count < 4, (251 + UInt8.ofNat count - 251).toNat = count := by decide
    match added, fits with
    | [_], few | [_, _], few | [_, _, _], few =>
      refine (Reads.uint8 _).bind ((Reads.uint16 delta).bind (.andThen ?_ (.pure _)))
      rw [number _ (by simp)]
      exact .times fun type _ => type.reads
  | full delta locals stack =>
    obtain ⟨localsFit, stackFits⟩ := fits
    rw [encode, List.append_assoc]
    refine (Reads.uint8 255).bind ((Reads.uint16 delta).bind ?_)
    refine (Reads.list localsFit fun type _ => type.reads).bind ?_
    exact (Reads.list stackFits fun type _ => type.reads).andThen (.pure _)

example : (same 63).encode = [63] ∧ (same 64).encode = [251, 0, 64] := by decide

/-- A stack map is read back if its entries can be counted in 16 bits. -/
theorem reads_map {entries : List StackMapEntry} (short : entries.length < 2 ^ 16)
    (fit : ∀ entry ∈ entries, entry.Fits) : Reads readMap (encodeStackMap entries) entries :=
  Reads.list short fun entry among => (fit entry among).reads

/-- Does the entry list the whole frame? -/
def isFull : StackMapEntry → Bool
  | full .. => true
  | _ => false

end StackMapEntry

namespace StoredFrame

/-- An entry says how to get from one frame to another. -/
inductive Leads (delta : UInt16) (previous frame : StoredFrame) : StackMapEntry → Prop where
  | same (empty : frame.stack = []) (kept : frame.locals = previous.locals) :
      Leads delta previous frame (.same delta)
  | sameOneStack {value : StoredType} (single : frame.stack = [value])
      (kept : frame.locals = previous.locals) :
      Leads delta previous frame (.sameOneStack delta value)
  | chop {gone : List StoredType} (empty : frame.stack = []) (some : gone ≠ [])
      (few : gone.length < 4) (cut : previous.locals = frame.locals ++ gone) :
      Leads delta previous frame (.chop delta (UInt8.ofNat gone.length))
  | append {added : List StoredType} (empty : frame.stack = []) (some : added ≠ [])
      (few : added.length < 4) (joined : frame.locals = previous.locals ++ added) :
      Leads delta previous frame (.append delta added)
  | full : Leads delta previous frame (.full delta frame.locals frame.stack)

variable {delta : UInt16} {previous frame : StoredFrame} {entry : StackMapEntry}

/-- There is a code for every entry that leads anywhere. -/
theorem Leads.isInRange (leads : Leads delta previous frame entry) : entry.isInRange = true := by
  have counts : ∀ count < 4, count ≠ 0 → (0 < UInt8.ofNat count && UInt8.ofNat count < 4) = true := by
    decide
  cases leads with
  | same | sameOneStack | full => rfl
  | chop _ some few => exact counts _ few (by simpa using some)
  | append _ some few =>
    simp only [StackMapEntry.isInRange, Bool.and_eq_true, decide_eq_true_eq]
    exact ⟨List.length_pos_iff.mpr some, few⟩

theorem Leads.fits (leads : Leads delta previous frame entry)
    (locals : frame.locals.length < 2 ^ 16) (stack : frame.stack.length < 2 ^ 16) :
    entry.Fits := by
  have inRange := leads.isInRange
  cases leads with
  | full => exact ⟨locals, stack⟩
  | _ => exact inRange

theorem sharedFrom_comm (count : Nat) (a b : List StoredType) :
    sharedFrom count a b = sharedFrom count b a := by
  induction a generalizing count b with
  | nil => cases b <;> rfl
  | cons type restA ih =>
    cases b with
    | nil => rfl
    | cons other restB =>
      by_cases same : type = other
      · simp only [sharedFrom, same, if_true, ih]
      · simp only [sharedFrom, same, Ne.symm same, if_false]

theorem sharedFrom_eq_length {count : Nat} {a b : List StoredType} :
    sharedFrom count a b = count + a.length ↔ a <+: b := by
  induction a generalizing count b with
  | nil => cases b <;> simp [sharedFrom]
  | cons type restA ih =>
    cases b with
    | nil => simp [sharedFrom]
    | cons other restB =>
      rw [List.cons_prefix_cons, List.length_cons, sharedFrom]
      split
      · rename_i same
        rw [← @ih (count + 1), and_iff_right same]
        omega
      · rename_i different
        simp [different]

/-- All of one list is shared where the other one starts with it. -/
theorem sharedLength_eq_left {a b : List StoredType} :
    sharedLength a b = a.length ↔ a <+: b := by
  rw [sharedLength, ← @sharedFrom_eq_length 0, Nat.zero_add]

theorem sharedLength_eq_right {a b : List StoredType} :
    sharedLength a b = b.length ↔ b <+: a := by
  rw [sharedLength, sharedFrom_comm]
  exact sharedLength_eq_left

theorem entryAfter_leads (frame previous : StoredFrame) (delta : UInt16) :
    Leads delta previous frame (frame.entryAfter previous delta) := by
  obtain ⟨locals, stack⟩ := frame
  unfold entryAfter
  simp only [sharedLength_eq_left, sharedLength_eq_right]
  split
  · rename_i empty
    split
    · rename_i whole
      exact .same rfl (whole.1.eq_of_length whole.2)
    · rename_i notWhole
      split
      · rename_i shorter
        obtain ⟨⟨gone, cut⟩, few⟩ := shorter
        have length := congrArg List.length cut
        rw [List.length_append] at length
        rw [show previous.locals.length - locals.length = gone.length by omega] at few ⊢
        refine .chop rfl ?_ few cut.symm
        rintro rfl
        exact notWhole ⟨⟨[], cut⟩, by simpa using length⟩
      · rename_i notShorter
        split
        · rename_i longer
          obtain ⟨⟨added, joined⟩, few⟩ := longer
          have length := congrArg List.length joined
          rw [List.length_append] at length
          rw [← joined, List.drop_left]
          refine .append rfl ?_ (by omega) rfl
          rintro rfl
          rw [List.append_nil] at joined
          exact notWhole ⟨joined ▸ List.prefix_rfl, by rw [joined]⟩
        · exact .full
  · split
    · rename_i kept
      exact .sameOneStack rfl kept
    · exact .full
  · exact .full

/-- The whole frame is listed only if there is no other way to get to it. -/
theorem Leads.entryAfter_isFull (leads : Leads delta previous frame entry)
    (notFull : entry.isFull = false) : (frame.entryAfter previous delta).isFull = false := by
  unfold entryAfter
  simp only [sharedLength_eq_left, sharedLength_eq_right]
  cases leads with
  | same empty kept =>
    rw [empty, kept]
    simp [StackMapEntry.isFull]
  | sameOneStack single kept =>
    rw [single, kept]
    simp [StackMapEntry.isFull]
  | chop empty some few cut =>
    rw [empty, cut]
    simp [StackMapEntry.isFull, some, few]
  | @append added empty some few joined =>
    have longer : ¬ previous.locals ++ added <+: previous.locals := fun shorter => by
      have := shorter.length_le
      rw [List.length_append] at this
      exact some (List.length_eq_zero_iff.mp (by omega))
    rw [empty, joined]
    simp [StackMapEntry.isFull, some, few, longer]
  | full => cases notFull

end StoredFrame

end ClassWeave
