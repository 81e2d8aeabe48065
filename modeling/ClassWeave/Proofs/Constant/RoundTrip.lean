import ClassWeave.Proofs.Constant.Growth
import ClassWeave.Proofs.Text.ModifiedUtf8

/-!
# Constants are read back

Every constant but a text has one form only. A text has the form that it is written in, and any other
form that decodes to it: a table is written back as it was read exactly if all its texts were in the
form that texts are written in.
-/

namespace ClassWeave

namespace HandleKind

theorem ofCode?_code (kind : HandleKind) : ofCode? kind.code = some kind := by cases kind <;> rfl

theorem code_eq {code : UInt8} {kind : HandleKind} (found : ofCode? code = some kind) :
    kind.code = code := by
  unfold ofCode? at found
  split at found <;> cases found <;> rfl

end HandleKind

namespace Constant

/-- Is the length of a text in its form small enough for the 16 bits that it has? -/
def Fits : Constant → Prop
  | utf8 text => (ModifiedUtf8.encode text).length < 2 ^ 16
  | _ => True

def isText : Constant → Bool
  | utf8 _ => true
  | _ => false

/-- A body behind its length. -/
def textBytes (body : Bytes) : Bytes := 1 :: Bytes.ofUInt16 (UInt16.ofNat body.length) ++ body

/-- The forms that a constant has in a class file. -/
inductive Stored : Constant → Bytes → Prop where
  | text {text : String} {body : Bytes} (decoded : ModifiedUtf8.decode body = some text)
      (short : body.length < 2 ^ 16) : Stored (utf8 text) (textBytes body)
  | other {constant : Constant} (notText : constant.isText = false) :
      Stored constant constant.encode

theorem Fits.stored {constant : Constant} (fits : constant.Fits) :
    Stored constant constant.encode := by
  cases constant with
  | utf8 text => exact .text (ModifiedUtf8.decode_encode text) fits
  | _ => exact .other rfl

theorem Stored.fits {constant : Constant} {bytes : Bytes} (stored : Stored constant bytes) :
    constant.Fits := by
  cases stored with
  | text decoded short => exact (ModifiedUtf8.length_encode_le decoded).trans_lt short
  | other notText =>
    cases constant with
    | utf8 text => cases notText
    | _ => trivial

open Reader

/-- The constant that a tag announces is read after it. -/
private theorem reads_tagged {tag : UInt8} {bytes : Bytes} {constant : Constant}
    (content : Reads (readTagged tag) bytes constant) : Reads read (tag :: bytes) constant :=
  (Reads.uint8 tag).bind content

private theorem reads_index (make : ConstantIndex → Constant) (index : ConstantIndex) :
    Reads (do return make (← uint16)) (Bytes.ofUInt16 index) (make index) :=
  (Reads.uint16 index).andThen (.pure _)

private theorem reads_indices (make : UInt16 → ConstantIndex → Constant) (first second : UInt16) :
    Reads (do return make (← uint16) (← uint16)) (Bytes.ofUInt16 first ++ Bytes.ofUInt16 second)
      (make first second) :=
  (Reads.uint16 first).bind ((Reads.uint16 second).andThen (.pure _))

/-- Each form of a constant is read as this constant. -/
theorem Stored.reads {constant : Constant} {bytes : Bytes} (stored : Stored constant bytes) :
    Reads read bytes constant := by
  cases stored with
  | @text text body decoded short =>
    refine reads_tagged (Reads.andThen (?_ : Reads _ _ text) (.pure _))
    refine (Reads.uint16 _).bind ?_
    rw [UInt16.toNat_ofNat_of_lt' short]
    refine (Reads.take body).andThen ?_
    rw [decoded]
    exact .pure text
  | other notText =>
    cases constant with
    | utf8 text => cases notText
    | integer value => exact reads_tagged ((Reads.int32 value).andThen (.pure _))
    | float bits => exact reads_tagged ((Reads.uint32 bits).andThen (.pure _))
    | long value => exact reads_tagged ((Reads.int64 value).andThen (.pure _))
    | double bits => exact reads_tagged ((Reads.uint64 bits).andThen (.pure _))
    | classRef name => exact reads_tagged (reads_index classRef name)
    | string text => exact reads_tagged (reads_index string text)
    | fieldRef owner signature => exact reads_tagged (reads_indices fieldRef owner signature)
    | methodRef owner signature isInterface =>
      cases isInterface with
      | false => exact reads_tagged (reads_indices (methodRef · · false) owner signature)
      | true => exact reads_tagged (reads_indices (methodRef · · true) owner signature)
    | nameAndType name descriptor => exact reads_tagged (reads_indices nameAndType name descriptor)
    | methodHandle kind member =>
      refine reads_tagged (Reads.bind (?_ : Reads _ [kind.code] kind)
        (reads_index (methodHandle kind) member))
      refine (Reads.uint8 _).andThen ?_
      rw [HandleKind.ofCode?_code]
      exact .pure kind
    | methodType descriptor => exact reads_tagged (reads_index methodType descriptor)
    | dynamic bootstrap signature => exact reads_tagged (reads_indices dynamic bootstrap signature)
    | invokeDynamic bootstrap signature =>
      exact reads_tagged (reads_indices invokeDynamic bootstrap signature)
    | module name => exact reads_tagged (reads_index module name)
    | package name => exact reads_tagged (reads_index package name)

private theorem index_ok {make : ConstantIndex → Constant} {constant : Constant}
    {input rest : Input} (done : (do return make (← uint16) : Reader Constant) input
      = .ok (constant, rest)) :
    ∃ index, make index = constant ∧ input.ahead = Bytes.ofUInt16 index ++ rest.ahead := by
  obtain ⟨index, middle, indexRead, done⟩ := bind_ok.mp done
  cases done
  exact ⟨index, rfl, recovers_uint16 indexRead⟩

private theorem indices_ok {make : UInt16 → ConstantIndex → Constant} {constant : Constant}
    {input rest : Input} (done : (do return make (← uint16) (← uint16) : Reader Constant) input
      = .ok (constant, rest)) :
    ∃ first second, make first second = constant ∧
      input.ahead = Bytes.ofUInt16 first ++ Bytes.ofUInt16 second ++ rest.ahead := by
  obtain ⟨first, middle, firstRead, done⟩ := bind_ok.mp done
  obtain ⟨second, last, secondRead, done⟩ := bind_ok.mp done
  cases done
  refine ⟨first, second, rfl, ?_⟩
  rw [recovers_uint16 firstRead, recovers_uint16 secondRead, List.append_assoc]

/-- What is read after a tag is the rest of a form that starts with it. -/
theorem readTagged_ok {tag : UInt8} {constant : Constant} {input rest : Input}
    (done : readTagged tag input = .ok (constant, rest)) :
    ∃ bytes, Stored constant (tag :: bytes) ∧ input.ahead = bytes ++ rest.ahead := by
  unfold readTagged at done
  split at done
  · obtain ⟨text, _, textRead, done⟩ := bind_ok.mp done
    cases done
    obtain ⟨length, middle, lengthRead, textRead⟩ := bind_ok.mp textRead
    obtain ⟨body, last, bodyRead, textRead⟩ := bind_ok.mp textRead
    obtain ⟨bodyLength, ahead⟩ := take_ok bodyRead
    cases decoded : ModifiedUtf8.decode body with
    | none =>
      rw [decoded] at textRead
      cases textRead
    | some found =>
      rw [decoded] at textRead
      cases textRead
      refine ⟨_, .text decoded (bodyLength ▸ length.toNat_lt), ?_⟩
      rw [recovers_uint16 lengthRead, ahead, bodyLength, UInt16.ofNat_toNat]
      exact (List.append_assoc _ _ _).symm
  · obtain ⟨value, middle, valueRead, done⟩ := bind_ok.mp done
    cases done
    exact ⟨_, .other rfl, recovers_int32 valueRead⟩
  · obtain ⟨bits, middle, bitsRead, done⟩ := bind_ok.mp done
    cases done
    exact ⟨_, .other rfl, recovers_uint32 bitsRead⟩
  · obtain ⟨value, middle, valueRead, done⟩ := bind_ok.mp done
    cases done
    exact ⟨_, .other rfl, recovers_int64 valueRead⟩
  · obtain ⟨bits, middle, bitsRead, done⟩ := bind_ok.mp done
    cases done
    exact ⟨_, .other rfl, recovers_uint64 bitsRead⟩
  case h_6 | h_7 | h_13 | h_16 | h_17 =>
    obtain ⟨index, rfl, ahead⟩ := index_ok done
    exact ⟨_, .other rfl, ahead⟩
  case h_8 | h_9 | h_10 | h_11 | h_14 | h_15 =>
    obtain ⟨first, second, rfl, ahead⟩ := indices_ok done
    exact ⟨_, .other rfl, ahead⟩
  · obtain ⟨kind, _, kindRead, done⟩ := bind_ok.mp done
    obtain ⟨index, _, indexRead, done⟩ := bind_ok.mp done
    cases done
    obtain ⟨code, middle, codeRead, kindRead⟩ := bind_ok.mp kindRead
    cases found : HandleKind.ofCode? code with
    | none =>
      rw [found] at kindRead
      cases kindRead
    | some other =>
      rw [found] at kindRead
      cases kindRead
      refine ⟨kind.code :: Bytes.ofUInt16 index, .other rfl, ?_⟩
      rw [recovers_uint8 codeRead, recovers_uint16 indexRead, HandleKind.code_eq found]
      rfl
  · cases done

/-- What is read as a constant is one of its forms. -/
theorem read_ok {constant : Constant} {input rest : Input}
    (done : read input = .ok (constant, rest)) :
    ∃ bytes, Stored constant bytes ∧ input.ahead = bytes ++ rest.ahead := by
  obtain ⟨tag, middle, tagRead, done⟩ := bind_ok.mp done
  obtain ⟨bytes, stored, ahead⟩ := readTagged_ok done
  exact ⟨tag :: bytes, stored, by rw [recovers_uint8 tagRead, ahead]; rfl⟩

/-- The number of bytes that a constant other than a text has after its tag. -/
def contentLength : UInt8 → Nat
  | 5 | 6 => 8
  | 7 | 8 | 16 | 19 | 20 => 2
  | 15 => 3
  | _ => 4

end Constant

namespace ConstantTable

open Constant (Stored contentLength textBytes)

/-- The bodies of the texts among the constants that fill a number of slots. The slot after an
eight-byte number has no bytes. -/
def textBodiesFrom (afterWide : Bool) : Nat → Bytes → List Bytes
  | 0, _ => []
  | slots + 1, bytes =>
    if afterWide then textBodiesFrom false slots bytes
    else
      match bytes with
      | 1 :: high :: low :: bytes =>
        let length := high.toNat * 256 + low.toNat
        bytes.take length :: textBodiesFrom false slots (bytes.drop length)
      | tag :: bytes =>
        textBodiesFrom (tag == 5 || tag == 6) slots (bytes.drop (contentLength tag))
      | [] => []

def textBodies (slots : Nat) (bytes : Bytes) : List Bytes := textBodiesFrom false slots bytes

theorem textBodies_text {body : Bytes} (short : body.length < 2 ^ 16) (slots : Nat)
    (rest : Bytes) : textBodies (slots + 1) (textBytes body ++ rest) = body :: textBodies slots rest := by
  have length := Reader.ofUInt16_value short
  rw [textBytes, Bytes.ofUInt16, textBodies]
  simp only [List.cons_append, List.nil_append, textBodiesFrom, length, List.take_left,
    List.drop_left]
  rfl

theorem textBodies_other {constant : Constant} (notText : constant.isText = false) (slots : Nat)
    (rest : Bytes) :
    textBodies (slots + constant.width) (constant.encode ++ rest) = textBodies slots rest := by
  cases constant with
  | utf8 text => cases notText
  | methodRef owner signature isInterface => cases isInterface <;> rfl
  | _ => rfl

/-- A body is told from what follows by its length. -/
theorem textBytes_append_inj {first second rest later : Bytes} (firstShort : first.length < 2 ^ 16)
    (secondShort : second.length < 2 ^ 16)
    (same : textBytes first ++ rest = textBytes second ++ later) : first = second ∧ rest = later := by
  have firstRead := textBodies_text firstShort 0 rest
  have secondRead := textBodies_text secondShort 0 later
  rw [same, secondRead] at firstRead
  obtain rfl : second = first := List.head_eq_of_cons_eq firstRead
  exact ⟨rfl, List.append_cancel_left same⟩

/-- Bodies that are written, in front of what is the same, are those of the texts. -/
theorem textBodies_canonical_iff {constants : List Constant} {chunks : List Bytes}
    (each : List.Forall₂ Stored constants chunks) (rest : Bytes) :
    (∀ body ∈ textBodies (constants.map Constant.width).sum (chunks.flatten ++ rest),
      ∃ text, ModifiedUtf8.encode text = body) ↔
    chunks.flatten ++ rest = constants.flatMap Constant.encode ++ rest := by
  induction each with
  | nil => simp [textBodies, textBodiesFrom]
  | @cons constant bytes constants chunks stored _ ih =>
    simp only [List.map_cons, List.sum_cons, List.flatten_cons, List.flatMap_cons,
      List.append_assoc]
    rw [Nat.add_comm]
    cases stored with
    | @text text body decoded short =>
      rw [show (Constant.utf8 text).width = 1 from rfl, textBodies_text short, List.forall_mem_cons, ih]
      constructor
      · rintro ⟨⟨other, rfl⟩, later⟩
        rw [ModifiedUtf8.decode_encode] at decoded
        cases decoded
        rw [later]
        rfl
      · intro same
        have fits := (ModifiedUtf8.length_encode_le decoded).trans_lt short
        obtain ⟨rfl, later⟩ := textBytes_append_inj short fits same
        exact ⟨⟨text, rfl⟩, later⟩
    | other notText => rw [textBodies_other notText, List.append_cancel_left_eq, ih]

theorem toList_foldl_push (constants : List Constant) (table : ConstantTable) :
    (constants.foldl push table).toList = table.toList ++ constants := by
  induction constants generalizing table with
  | nil => simp
  | cons constant constants ih => simp [ih, toList_push]

theorem size_foldl_push (constants : List Constant) (table : ConstantTable) :
    (constants.foldl push table).size = table.size + (constants.map Constant.width).sum := by
  induction constants generalizing table with
  | nil => simp
  | cons constant constants ih => simp [ih, size_push, Nat.add_assoc]

/-- Slots are filled with the constants whose forms are read. -/
theorem readSlots_ok {table filled : ConstantTable} {count : Nat} {input rest : Input}
    (done : readSlots table count input = .ok (filled, rest)) :
    ∃ constants chunks, List.Forall₂ Stored constants chunks ∧
      (constants.map Constant.width).sum = count ∧ constants.foldl push table = filled ∧
      input.ahead = chunks.flatten ++ rest.ahead := by
  fun_induction readSlots table count generalizing input with
  | case1 table =>
    cases done
    exact ⟨[], [], .nil, rfl, rfl, rfl⟩
  | case2 table =>
    obtain ⟨constant, middle, constantRead, done⟩ := Reader.bind_ok.mp done
    obtain ⟨bytes, stored, ahead⟩ := Constant.read_ok constantRead
    split at done
    · cases done
    · rename_i narrow
      cases done
      have single := constant.single_of_not_wide narrow
      exact ⟨[constant], [bytes], .cons stored .nil, by simp [single], rfl, by simp [ahead]⟩
  | case3 table count ihWide ih =>
    obtain ⟨constant, middle, constantRead, done⟩ := Reader.bind_ok.mp done
    obtain ⟨bytes, stored, ahead⟩ := Constant.read_ok constantRead
    split at done
    · rename_i wide
      obtain ⟨constants, chunks, each, width, rfl, later⟩ := ihWide constant done
      refine ⟨constant :: constants, bytes :: chunks, .cons stored each, ?_, rfl, ?_⟩
      · rw [List.map_cons, List.sum_cons, width, eq_of_beq wide, Nat.add_comm]
      · rw [ahead, later, List.flatten_cons, List.append_assoc]
    · rename_i narrow
      have single := constant.single_of_not_wide narrow
      obtain ⟨constants, chunks, each, width, rfl, later⟩ := ih constant done
      refine ⟨constant :: constants, bytes :: chunks, .cons stored each, ?_, rfl, ?_⟩
      · rw [List.map_cons, List.sum_cons, width, single, Nat.add_comm]
      · rw [ahead, later, List.flatten_cons, List.append_assoc]

/-- Forms of constants fill the slots with these constants. -/
theorem reads_readSlots {constants : List Constant} {chunks : List Bytes}
    (each : List.Forall₂ Stored constants chunks) (table : ConstantTable) :
    Reader.Reads (readSlots table (constants.map Constant.width).sum) chunks.flatten
      (constants.foldl push table) := by
  induction each generalizing table with
  | nil => exact .pure table
  | @cons constant bytes constants chunks stored each ih =>
    rw [List.map_cons, List.sum_cons, List.flatten_cons, List.foldl_cons]
    have later := ih (table.push constant)
    rcases constant.width_eq with narrow | wide
    · rw [narrow, Nat.add_comm]
      cases slots : (constants.map Constant.width).sum with
      | zero =>
        rw [slots] at later
        refine stored.reads.bind ?_
        rwa [if_neg (by simp [narrow])]
      | succ slots' =>
        rw [slots] at later
        refine stored.reads.bind ?_
        rwa [if_neg (by simp [narrow])]
    · rw [wide, Nat.add_comm]
      refine stored.reads.bind ?_
      rwa [if_pos (by simp [wide])]

theorem Aligned.foldl_push {table : ConstantTable} (aligned : table.Aligned)
    (constants : List Constant) : (constants.foldl ConstantTable.push table).Aligned := by
  induction constants generalizing table with
  | nil => exact aligned
  | cons constant constants ih => exact ih (aligned.push constant)

theorem Extends.foldl_push (constants : List Constant) (table : ConstantTable) :
    (constants.foldl ConstantTable.push table).Extends table := by
  induction constants generalizing table with
  | nil => exact .refl table
  | cons constant constants ih => exact (ih _).trans (.push table constant)

/-- No constant is in slot 0. -/
theorem Aligned.get?_zero {table : ConstantTable} (aligned : table.Aligned) :
    table.get? 0 = none := by
  have grown : table.Extends empty := by
    rw [← aligned]
    exact .foldl_push _ _
  rw [ConstantTable.get?, grown.slot (show 0 < empty.size from Nat.one_pos)]
  rfl

theorem read_ok {table : ConstantTable} {input rest : Input}
    (done : ConstantTable.read input = .ok (table, rest)) :
    ∃ chunks, List.Forall₂ Stored table.toList chunks ∧
      (table.toList.map Constant.width).sum = table.size - 1 ∧ table.Aligned ∧
      table.size ≤ Pool.maxSlots ∧
      input.ahead = Bytes.ofUInt16 (UInt16.ofNat table.size) ++ (chunks.flatten ++ rest.ahead) := by
  obtain ⟨size, middle, sizeRead, filled⟩ := Reader.bind_ok.mp done
  split at filled
  · cases filled
  · rename_i nonempty
    have positive : size.toNat ≠ 0 := fun zero =>
      nonempty (beq_iff_eq.mpr (UInt16.toNat_inj.mp zero))
    have bound := read_size done
    obtain ⟨constants, chunks, each, width, rfl, later⟩ := readSlots_ok filled
    have listed : (constants.foldl ConstantTable.push empty).toList = constants :=
      toList_foldl_push constants empty
    have slots : (constants.foldl ConstantTable.push empty).size = size.toNat := by
      rw [size_foldl_push, width, show empty.size = 1 from rfl]
      omega
    rw [listed, slots]
    refine ⟨chunks, each, width, aligned_empty.foldl_push constants, slots ▸ bound, ?_⟩
    rw [Reader.recovers_uint16 sizeRead, later, UInt16.ofNat_toNat]

/-- A table whose texts and size fit is read back. -/
theorem reads_encode {table : ConstantTable} (aligned : table.Aligned)
    (bound : table.size ≤ Pool.maxSlots) (fit : ∀ constant ∈ table.toList, constant.Fits) :
    Reader.Reads ConstantTable.read table.encode table := by
  have each : List.Forall₂ Stored table.toList (table.toList.map Constant.encode) :=
    List.forall₂_map_right_iff.mpr (List.forall₂_same.mpr fun constant member =>
      (fit constant member).stored)
  have filled : table.size = 1 + (table.toList.map Constant.width).sum := by
    rw [← show empty.size = 1 from rfl, ← size_foldl_push]
    exact congrArg size aligned.symm
  have short : table.size < 2 ^ 16 := Nat.lt_succ_of_le bound
  have size : (UInt16.ofNat table.size).toNat = table.size := UInt16.toNat_ofNat_of_lt' short
  refine (Reader.Reads.uint16 _).bind ?_
  rw [if_neg fun zero => ?_, size, filled, Nat.add_sub_cancel_left, List.flatMap_def]
  · have slots := reads_readSlots each empty
    rwa [show table.toList.foldl ConstantTable.push empty = table from aligned] at slots
  · rw [eq_of_beq zero] at size
    have none : table.size = 0 := size.symm
    omega

end ConstantTable

namespace Pool

/-- A pool starts from a list of constants, and may have grown since. -/
inductive Built : Pool → Prop where
  | ofList {constants : List Constant}
      (bound : (ConstantTable.ofList constants).size ≤ maxSlots) :
      Built (.ofTable (.ofList constants))
  | intern {pool : Pool} (built : Built pool) (constant : Constant) : Built (pool.intern constant).2

/-- The constants of a class file that was read make such a pool. -/
theorem Built.of_read {table : ConstantTable} {input rest : Input}
    (done : ConstantTable.read input = .ok (table, rest)) : Built (.ofTable table) := by
  obtain ⟨-, -, -, aligned, bound, -⟩ := ConstantTable.read_ok done
  rw [← show ConstantTable.ofList table.toList = table from aligned] at bound ⊢
  exact .ofList bound

theorem Built.sound {pool : Pool} (built : pool.Built) : pool.Sound := by
  induction built with
  | ofList bound => exact ofTable_sound bound
  | intern _ constant ih => exact (intern_grown _ constant).sound ih

theorem Built.aligned {pool : Pool} (built : pool.Built) : pool.table.Aligned := by
  induction built with
  | ofList => exact ConstantTable.aligned_empty.foldl_push _
  | intern _ constant ih => exact (intern_grown _ constant).aligned ih

end Pool

end ClassWeave
