import Mathlib.Data.Nat.Bitwise
import ClassWeave.Bytes.Reader

/-!
# Reading back

Reading takes the bytes that writing left, no more and no fewer, whatever comes after them. The other
way round, what was read can be written again: the bytes that were taken are those of the answer.
-/

namespace ClassWeave

namespace Reader

variable {α β : Type}

theorem bind_ok {reader : Reader α} {next : α → Reader β} {input : Input} {result : β × Input} :
    (reader >>= next) input = .ok result ↔
      ∃ value middle, reader input = .ok (value, middle) ∧ next value middle = .ok result := by
  change reader input >>= (fun (value, rest) => next value rest) = .ok result ↔ _
  cases reader input with
  | error stop => simp [bind, Except.bind]
  | ok read => simp [bind, Except.bind, Prod.ext_iff]

/-- What goes on after a value is read goes on with it. -/
theorem bind_of_ok {reader : Reader α} {next : α → Reader β} {input rest : Input} {value : α}
    (done : reader input = .ok (value, rest)) : (reader >>= next) input = next value rest := by
  change reader input >>= (fun (value, rest) => next value rest) = _
  rw [done]
  rfl

/-- The reader takes exactly these bytes, wherever they are, and answers with the value. -/
def Reads (reader : Reader α) (bytes : Bytes) (value : α) : Prop :=
  ∀ position rest,
    reader ⟨position, bytes ++ rest⟩ = .ok (value, ⟨position + bytes.length, rest⟩)

theorem Reads.pure (value : α) : Reads (pure value) [] value := fun _ _ => rfl

theorem Reads.bind {reader : Reader α} {next : α → Reader β} {bytes later : Bytes} {value : α}
    {result : β} (first : Reads reader bytes value) (second : Reads (next value) later result) :
    Reads (reader >>= next) (bytes ++ later) result := by
  intro position rest
  change (reader ⟨position, bytes ++ later ++ rest⟩ >>= fun (value, input) => next value input) = _
  rw [List.append_assoc, first]
  change next value ⟨position + bytes.length, later ++ rest⟩ = _
  rw [second, List.length_append, Nat.add_assoc]

/-- What only changes the answer takes no bytes. -/
theorem Reads.andThen {reader : Reader α} {next : α → Reader β} {bytes : Bytes} {value : α}
    {result : β} (first : Reads reader bytes value) (second : Reads (next value) [] result) :
    Reads (reader >>= next) bytes result := by
  simpa using first.bind second

theorem Reads.uint8 (value : UInt8) : Reads uint8 [value] value := fun _ _ => rfl

/-- A number is its high bits and its low bits side by side. -/
private theorem high_or_low {number bits : Nat} (bound : number < 2 ^ (bits + bits)) :
    (number >>> bits % 2 ^ bits) <<< bits % 2 ^ (bits + bits) ||| number % 2 ^ bits = number := by
  have high : number / 2 ^ bits < 2 ^ bits := by
    rwa [Nat.div_lt_iff_lt_mul (Nat.two_pow_pos bits), ← Nat.pow_add]
  have low : number % 2 ^ bits < 2 ^ bits := Nat.mod_lt _ (Nat.two_pow_pos bits)
  rw [Nat.shiftRight_eq_div_pow, Nat.mod_eq_of_lt high, Nat.shiftLeft_eq, Nat.mod_eq_of_lt,
    ← Nat.shiftLeft_eq, ← Nat.shiftLeft_add_eq_or_of_lt low, Nat.shiftLeft_eq]
  · exact Nat.div_add_mod' number (2 ^ bits)
  · exact (Nat.div_mul_le_self number (2 ^ bits)).trans_lt bound

theorem Reads.uint16 (value : UInt16) : Reads uint16 (Bytes.ofUInt16 value) value := by
  have whole : (value >>> 8).toUInt8.toUInt16 <<< 8 ||| value.toUInt8.toUInt16 = value := by
    apply UInt16.toNat_inj.mp
    simp only [UInt16.toNat_or, UInt16.toNat_shiftLeft, UInt8.toNat_toUInt16,
      UInt16.toNat_toUInt8, UInt16.toNat_shiftRight]
    exact high_or_low value.toNat_lt
  intro position rest
  change Except.ok (_, _) = _
  rw [whole]
  rfl

theorem ofUInt32_halves (value : UInt32) : Bytes.ofUInt32 value =
    Bytes.ofUInt16 (value >>> 16).toUInt16 ++ Bytes.ofUInt16 value.toUInt16 := by
  have highest : (value >>> 24).toUInt8 = ((value >>> 16).toUInt16 >>> 8).toUInt8 := by
    apply UInt8.toNat_inj.mp
    simp [Nat.shiftRight_eq_div_pow]
    omega
  have lower : (value >>> 8).toUInt8 = (value.toUInt16 >>> 8).toUInt8 := by
    apply UInt8.toNat_inj.mp
    simp [Nat.shiftRight_eq_div_pow]
    omega
  simp [Bytes.ofUInt32, Bytes.ofUInt16, highest, lower]

theorem Reads.uint32 (value : UInt32) : Reads uint32 (Bytes.ofUInt32 value) value := by
  have whole : (value >>> 16).toUInt16.toUInt32 <<< 16 ||| value.toUInt16.toUInt32 = value := by
    apply UInt32.toNat_inj.mp
    simp only [UInt32.toNat_or, UInt32.toNat_shiftLeft, UInt16.toNat_toUInt32,
      UInt32.toNat_toUInt16, UInt32.toNat_shiftRight]
    exact high_or_low value.toNat_lt
  rw [ofUInt32_halves]
  refine (Reads.uint16 _).bind ((Reads.uint16 _).andThen ?_)
  rw [whole]
  exact .pure value

theorem Reads.uint64 (value : UInt64) : Reads uint64 (Bytes.ofUInt64 value) value := by
  have whole : (value >>> 32).toUInt32.toUInt64 <<< 32 ||| value.toUInt32.toUInt64 = value := by
    apply UInt64.toNat_inj.mp
    simp only [UInt64.toNat_or, UInt64.toNat_shiftLeft, UInt32.toNat_toUInt64,
      UInt64.toNat_toUInt32, UInt64.toNat_shiftRight]
    exact high_or_low value.toNat_lt
  refine (Reads.uint32 _).bind ((Reads.uint32 _).andThen ?_)
  rw [whole]
  exact .pure value

theorem Reads.int8 (value : Int8) : Reads int8 [value.toUInt8] value :=
  (Reads.uint8 _).andThen (.pure value)

theorem Reads.int16 (value : Int16) : Reads int16 (Bytes.ofUInt16 value.toUInt16) value :=
  (Reads.uint16 _).andThen (.pure value)

theorem Reads.int32 (value : Int32) : Reads int32 (Bytes.ofUInt32 value.toUInt32) value :=
  (Reads.uint32 _).andThen (.pure value)

theorem Reads.int64 (value : Int64) : Reads int64 (Bytes.ofUInt64 value.toUInt64) value :=
  (Reads.uint64 _).andThen (.pure value)

theorem Reads.take (bytes : Bytes) : Reads (take bytes.length) bytes bytes := by
  intro position rest
  simp [Reader.take]

private theorem reads_timesFrom {item : Reader α} {write : α → Bytes} {values : List α}
    (each : ∀ value ∈ values, Reads item (write value) value) (seen : List α) :
    Reads (timesFrom item seen values.length) (values.flatMap write) (seen.reverse ++ values) := by
  induction values generalizing seen with
  | nil =>
    intro position rest
    simp [timesFrom]
  | cons value values ih =>
    intro position rest
    have first := each value List.mem_cons_self position (values.flatMap write ++ rest)
    have others := ih (fun other member => each other (List.mem_cons_of_mem value member))
      (value :: seen) (position + (write value).length) rest
    simp only [List.length_cons, timesFrom, List.flatMap_cons, List.append_assoc, first, others]
    simp [Nat.add_assoc]

/-- Values one after the other are read back one after the other. -/
theorem Reads.times {item : Reader α} {write : α → Bytes} {values : List α}
    (each : ∀ value ∈ values, Reads item (write value) value) :
    Reads (times item values.length) (values.flatMap write) values :=
  reads_timesFrom each []

/-- A list is read back if its count fits into 16 bits. -/
theorem Reads.list {item : Reader α} {write : α → Bytes} {values : List α}
    (short : values.length < 2 ^ 16) (each : ∀ value ∈ values, Reads item (write value) value) :
    Reads (list item) (Bytes.ofList write values) values := by
  refine (Reads.uint16 _).bind ?_
  rw [UInt16.toNat_ofNat_of_lt' short]
  exact .times each

/-- Whatever the reader takes is what `write` makes of its answer. -/
def Recovers (reader : Reader α) (write : α → Bytes) : Prop :=
  ∀ ⦃input rest : Input⦄ ⦃value : α⦄, reader input = .ok (value, rest) →
    input.ahead = write value ++ rest.ahead

theorem recovers_uint8 : Recovers uint8 fun value => [value] := by
  rintro ⟨position, ahead⟩ rest value done
  cases ahead with
  | nil => cases done
  | cons byte ahead =>
    cases done
    rfl

/-- What was put side by side is found again. -/
private theorem high_low_halves {high low bits : Nat} (highFits : high < 2 ^ bits)
    (lowFits : low < 2 ^ bits) :
    (high <<< bits % 2 ^ (bits + bits) ||| low) >>> bits % 2 ^ bits = high ∧
      (high <<< bits % 2 ^ (bits + bits) ||| low) % 2 ^ bits = low := by
  have positive := Nat.two_pow_pos bits
  have shifted : high <<< bits < 2 ^ (bits + bits) := by
    rw [Nat.shiftLeft_eq, Nat.pow_add]
    exact Nat.mul_lt_mul_of_pos_right highFits positive
  rw [Nat.mod_eq_of_lt shifted, ← Nat.shiftLeft_add_eq_or_of_lt lowFits, Nat.shiftLeft_eq,
    Nat.shiftRight_eq_div_pow, Nat.mul_comm]
  constructor
  · rw [Nat.mul_add_div positive, Nat.div_eq_of_lt lowFits, Nat.add_zero, Nat.mod_eq_of_lt highFits]
  · rw [Nat.mul_add_mod, Nat.mod_eq_of_lt lowFits]

/-- A number of 16 bits is the sum of its two bytes. -/
theorem ofUInt16_value {number : Nat} (bound : number < 2 ^ 16) :
    (UInt16.ofNat number >>> 8).toUInt8.toNat * 256 + (UInt16.ofNat number).toUInt8.toNat
      = number := by
  simp [Nat.shiftRight_eq_div_pow]
  omega

theorem ofUInt16_joined (high low : UInt8) :
    Bytes.ofUInt16 (high.toUInt16 <<< 8 ||| low.toUInt16) = [high, low] := by
  have halves := high_low_halves high.toNat_lt low.toNat_lt
  have first : ((high.toUInt16 <<< 8 ||| low.toUInt16) >>> 8).toUInt8 = high := by
    apply UInt8.toNat_inj.mp
    simp only [UInt16.toNat_toUInt8, UInt16.toNat_shiftRight, UInt16.toNat_or,
      UInt16.toNat_shiftLeft, UInt8.toNat_toUInt16]
    exact halves.1
  have second : (high.toUInt16 <<< 8 ||| low.toUInt16).toUInt8 = low := by
    apply UInt8.toNat_inj.mp
    simp only [UInt16.toNat_toUInt8, UInt16.toNat_or,
      UInt16.toNat_shiftLeft, UInt8.toNat_toUInt16]
    exact halves.2
  rw [Bytes.ofUInt16, first, second]

theorem ofUInt32_joined (high low : UInt16) :
    Bytes.ofUInt32 (high.toUInt32 <<< 16 ||| low.toUInt32) =
      Bytes.ofUInt16 high ++ Bytes.ofUInt16 low := by
  have halves := high_low_halves high.toNat_lt low.toNat_lt
  have first : ((high.toUInt32 <<< 16 ||| low.toUInt32) >>> 16).toUInt16 = high := by
    apply UInt16.toNat_inj.mp
    simp only [UInt32.toNat_toUInt16, UInt32.toNat_shiftRight, UInt32.toNat_or,
      UInt32.toNat_shiftLeft, UInt16.toNat_toUInt32]
    exact halves.1
  have second : (high.toUInt32 <<< 16 ||| low.toUInt32).toUInt16 = low := by
    apply UInt16.toNat_inj.mp
    simp only [UInt32.toNat_toUInt16, UInt32.toNat_or,
      UInt32.toNat_shiftLeft, UInt16.toNat_toUInt32]
    exact halves.2
  rw [ofUInt32_halves, first, second]

theorem ofUInt64_joined (high low : UInt32) :
    Bytes.ofUInt64 (high.toUInt64 <<< 32 ||| low.toUInt64) =
      Bytes.ofUInt32 high ++ Bytes.ofUInt32 low := by
  have halves := high_low_halves high.toNat_lt low.toNat_lt
  have first : ((high.toUInt64 <<< 32 ||| low.toUInt64) >>> 32).toUInt32 = high := by
    apply UInt32.toNat_inj.mp
    simp only [UInt64.toNat_toUInt32, UInt64.toNat_shiftRight, UInt64.toNat_or,
      UInt64.toNat_shiftLeft, UInt32.toNat_toUInt64]
    exact halves.1
  have second : (high.toUInt64 <<< 32 ||| low.toUInt64).toUInt32 = low := by
    apply UInt32.toNat_inj.mp
    simp only [UInt64.toNat_toUInt32, UInt64.toNat_or,
      UInt64.toNat_shiftLeft, UInt32.toNat_toUInt64]
    exact halves.2
  rw [Bytes.ofUInt64, first, second]

/-- Two numbers side by side are recovered if what joins them is. -/
theorem Recovers.joined {half : Reader α} {writeHalf : α → Bytes} {join : α → α → β}
    {write : β → Bytes} (recovers : Recovers half writeHalf)
    (splits : ∀ high low, write (join high low) = writeHalf high ++ writeHalf low) :
    Recovers (do
      let high ← half
      let low ← half
      return join high low) write := by
  intro input rest value done
  obtain ⟨high, middle, highRead, done⟩ := bind_ok.mp done
  obtain ⟨low, last, lowRead, done⟩ := bind_ok.mp done
  cases done
  rw [recovers highRead, recovers lowRead, splits, List.append_assoc]

theorem recovers_uint16 : Recovers uint16 Bytes.ofUInt16 :=
  recovers_uint8.joined ofUInt16_joined

theorem recovers_uint32 : Recovers uint32 Bytes.ofUInt32 :=
  recovers_uint16.joined ofUInt32_joined

theorem recovers_uint64 : Recovers uint64 Bytes.ofUInt64 :=
  recovers_uint32.joined ofUInt64_joined

theorem recovers_int32 : Recovers int32 fun value => Bytes.ofUInt32 value.toUInt32 := by
  intro input rest value done
  obtain ⟨bits, middle, bitsRead, done⟩ := bind_ok.mp done
  cases done
  exact recovers_uint32 bitsRead

theorem recovers_int64 : Recovers int64 fun value => Bytes.ofUInt64 value.toUInt64 := by
  intro input rest value done
  obtain ⟨bits, middle, bitsRead, done⟩ := bind_ok.mp done
  cases done
  exact recovers_uint64 bitsRead

theorem take_ok {count : Nat} {input rest : Input} {bytes : Bytes}
    (done : take count input = .ok (bytes, rest)) :
    bytes.length = count ∧ input.ahead = bytes ++ rest.ahead := by
  simp only [take, List.splitAt_eq] at done
  split at done
  · rename_i whole
    cases done
    exact ⟨eq_of_beq whole, (List.take_append_drop _ _).symm⟩
  · cases done

private theorem timesFrom_length {item : Reader α} {seen values : List α} {count : Nat}
    {input rest : Input} (done : timesFrom item seen count input = .ok (values, rest)) :
    values.length = seen.length + count := by
  induction count generalizing seen input with
  | zero =>
    cases done
    exact List.length_reverse
  | succ count ih =>
    simp only [timesFrom] at done
    split at done
    · cases done
    · rw [ih done, List.length_cons]
      omega

/-- As many values are read as were asked for. -/
theorem times_length {item : Reader α} {count : Nat} {input rest : Input} {values : List α}
    (done : times item count input = .ok (values, rest)) : values.length = count := by
  rw [timesFrom_length done, List.length_nil, Nat.zero_add]

private theorem timesFrom_ok {item : Reader α} {write : α → Bytes} (recovers : Recovers item write)
    {seen values : List α} {count : Nat} {input rest : Input}
    (done : timesFrom item seen count input = .ok (values, rest)) :
    ∃ later, values = seen.reverse ++ later ∧ input.ahead = later.flatMap write ++ rest.ahead := by
  induction count generalizing seen input with
  | zero =>
    cases done
    exact ⟨[], by simp, rfl⟩
  | succ count ih =>
    simp only [timesFrom] at done
    split at done
    · cases done
    · rename_i value middle itemRead
      obtain ⟨later, rfl, ahead⟩ := ih done
      refine ⟨value :: later, by simp, ?_⟩
      rw [recovers itemRead, ahead, List.flatMap_cons, List.append_assoc]

theorem times_ok {item : Reader α} {write : α → Bytes} (recovers : Recovers item write)
    {count : Nat} {input rest : Input} {values : List α}
    (done : times item count input = .ok (values, rest)) :
    values.length = count ∧ input.ahead = values.flatMap write ++ rest.ahead := by
  obtain ⟨later, same, ahead⟩ := timesFrom_ok recovers done
  rw [List.reverse_nil, List.nil_append] at same
  exact ⟨times_length done, same ▸ ahead⟩

/-- The elements of a list that is read can be counted in 16 bits. -/
theorem list_length {item : Reader α} {input rest : Input} {values : List α}
    (done : list item input = .ok (values, rest)) : values.length < 2 ^ 16 := by
  obtain ⟨count, middle, -, done⟩ := bind_ok.mp done
  exact times_length done ▸ count.toNat_lt

/-- A list that is read is as long as its count says. -/
theorem list_ok {item : Reader α} {write : α → Bytes} (recovers : Recovers item write)
    {input rest : Input} {values : List α} (done : list item input = .ok (values, rest)) :
    values.length < 2 ^ 16 ∧ input.ahead = Bytes.ofList write values ++ rest.ahead := by
  refine ⟨list_length done, ?_⟩
  obtain ⟨count, middle, countRead, done⟩ := bind_ok.mp done
  obtain ⟨length, ahead⟩ := times_ok recovers done
  rw [recovers_uint16 countRead, ahead, Bytes.ofList, length, UInt16.ofNat_toNat,
    List.append_assoc]

private theorem timesFrom_all {item : Reader α} {holds : α → Prop}
    (each : ∀ ⦃input rest value⦄, item input = .ok (value, rest) → holds value)
    {seen values : List α} {count : Nat} {input rest : Input} (before : ∀ value ∈ seen, holds value)
    (done : timesFrom item seen count input = .ok (values, rest)) :
    ∀ value ∈ values, holds value := by
  induction count generalizing seen input with
  | zero =>
    cases done
    simpa using before
  | succ count ih =>
    simp only [timesFrom] at done
    split at done
    · cases done
    · rename_i itemRead
      exact ih (List.forall_mem_cons.mpr ⟨each itemRead, before⟩) done

/-- What holds of everything that is read holds of the elements of a list. -/
theorem list_all {item : Reader α} {holds : α → Prop}
    (each : ∀ ⦃input rest value⦄, item input = .ok (value, rest) → holds value)
    {input rest : Input} {values : List α} (done : list item input = .ok (values, rest)) :
    ∀ value ∈ values, holds value := by
  obtain ⟨count, middle, countRead, done⟩ := bind_ok.mp done
  exact timesFrom_all each (by simp) done

end Reader

end ClassWeave
