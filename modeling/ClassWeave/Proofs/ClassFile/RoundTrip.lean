import Mathlib
import ClassWeave.ClassFile.Basic
import ClassWeave.Proofs.Constant.RoundTrip

/-!
# Class files are read back

What is read as a class file is written back as the same bytes exactly if its texts are in the form
that texts are written in. What is written is read back exactly if all lengths in it can be counted
in the bits that they have.
-/

namespace ClassWeave

open Reader (Reads Recovers)

namespace Attribute

/-- Can the length of the content be counted in 32 bits? -/
def Fits (attr : Attribute) : Prop := attr.info.length < 2 ^ 32

theorem Fits.reads {attr : Attribute} (fits : attr.Fits) : Reads read attr.encode attr := by
  unfold encode
  rw [List.append_assoc]
  refine (Reads.uint16 _).bind ((Reads.uint32 _).bind ?_)
  rw [UInt32.toNat_ofNat_of_lt' fits]
  exact (Reads.take _).andThen (.pure attr)

theorem read_ok {attr : Attribute} {input rest : Input} (done : read input = .ok (attr, rest)) :
    attr.Fits ∧ input.ahead = attr.encode ++ rest.ahead := by
  obtain ⟨nameIndex, _, nameRead, done⟩ := Reader.bind_ok.mp done
  obtain ⟨length, _, lengthRead, done⟩ := Reader.bind_ok.mp done
  obtain ⟨info, _, infoRead, done⟩ := Reader.bind_ok.mp done
  cases done
  obtain ⟨infoLength, ahead⟩ := Reader.take_ok infoRead
  have fits : info.length < 2 ^ 32 := infoLength ▸ length.toNat_lt
  refine ⟨fits, ?_⟩
  rw [Reader.recovers_uint16 nameRead, Reader.recovers_uint32 lengthRead, ahead, encode, infoLength,
    UInt32.ofNat_toNat, List.append_assoc, List.append_assoc]

theorem recovers_read : Recovers read encode := fun _ _ _ done => (read_ok done).2

end Attribute

namespace Member

/-- Can the attributes be counted in 16 bits, and does each of them fit? -/
structure Fits (member : Member) : Prop where
  count : member.attributes.length < 2 ^ 16
  attributes : ∀ attr ∈ member.attributes, attr.Fits

theorem Fits.reads {member : Member} (fits : member.Fits) : Reads read member.encode member := by
  unfold encode
  simp only [List.append_assoc]
  refine (Reads.uint16 _).bind ((Reads.uint16 _).bind ((Reads.uint16 _).bind ?_))
  exact (Reads.list fits.count fun attr among => (fits.attributes attr among).reads).andThen
    (.pure member)

theorem read_ok {member : Member} {input rest : Input} (done : read input = .ok (member, rest)) :
    member.Fits ∧ input.ahead = member.encode ++ rest.ahead := by
  obtain ⟨flags, _, flagsRead, done⟩ := Reader.bind_ok.mp done
  obtain ⟨name, _, nameRead, done⟩ := Reader.bind_ok.mp done
  obtain ⟨descriptor, _, descriptorRead, done⟩ := Reader.bind_ok.mp done
  obtain ⟨attributes, _, attributesRead, done⟩ := Reader.bind_ok.mp done
  cases done
  obtain ⟨count, ahead⟩ := Reader.list_ok Attribute.recovers_read attributesRead
  have each := Reader.list_all (fun _ _ _ attrRead => (Attribute.read_ok attrRead).1) attributesRead
  refine ⟨⟨count, each⟩, ?_⟩
  rw [Reader.recovers_uint16 flagsRead, Reader.recovers_uint16 nameRead,
    Reader.recovers_uint16 descriptorRead, ahead, encode]
  simp only [List.append_assoc]

theorem recovers_read : Recovers read encode := fun _ _ _ done => (read_ok done).2

/-- Can the members be counted in 16 bits, and does each of them fit? -/
structure ListFits (members : List Member) : Prop where
  count : members.length < 2 ^ 16
  each : ∀ member ∈ members, member.Fits

theorem ListFits.reads {members : List Member} (fits : ListFits members) :
    Reads (Reader.list read) (Bytes.ofList encode members) members :=
  .list fits.count fun member among => (fits.each member among).reads

theorem list_ok {members : List Member} {input rest : Input}
    (done : Reader.list read input = .ok (members, rest)) :
    ListFits members ∧ input.ahead = Bytes.ofList encode members ++ rest.ahead := by
  obtain ⟨count, ahead⟩ := Reader.list_ok recovers_read done
  exact ⟨⟨count, Reader.list_all (fun _ _ _ memberRead => (read_ok memberRead).1) done⟩, ahead⟩

end Member

namespace ClassFile

/-- Has everything with a length one that can be counted in its bits? -/
structure Fits (file : ClassFile) : Prop where
  slots : file.constants.size ≤ Pool.maxSlots
  constants : ∀ constant ∈ file.constants.toList, constant.Fits
  interfaces : file.interfaces.length < 2 ^ 16
  fields : Member.ListFits file.fields
  methods : Member.ListFits file.methods
  attributes : file.attributes.length < 2 ^ 16
  eachAttribute : ∀ attr ∈ file.attributes, attr.Fits

/-- Can a class file have been read at all? -/
structure Readable (file : ClassFile) : Prop where
  aligned : file.constants.Aligned
  superClass : file.superClass ≠ some 0

/-- The bytes before the constants. -/
def startBytes (file : ClassFile) : Bytes :=
  Bytes.ofUInt32 magic ++ Bytes.ofUInt16 file.version.minor ++ Bytes.ofUInt16 file.version.major

/-- The bytes after the constants. -/
def endBytes (file : ClassFile) : Bytes :=
  Bytes.ofUInt16 file.flags ++ Bytes.ofUInt16 file.thisClass
    ++ Bytes.ofUInt16 (file.superClass.getD 0)
    ++ Bytes.ofList Bytes.ofUInt16 file.interfaces
    ++ Bytes.ofList Member.encode file.fields
    ++ Bytes.ofList Member.encode file.methods
    ++ Bytes.ofList Attribute.encode file.attributes

theorem encode_eq (file : ClassFile) :
    file.encode = file.startBytes ++ (file.constants.encode ++ file.endBytes) := by
  unfold encode startBytes endBytes
  simp only [List.append_assoc]

theorem readStart_ok {version : Version} {constants : ConstantTable} {input rest : Input}
    (done : readStart input = .ok ((version, constants), rest)) :
    ∃ middle, ConstantTable.read middle = .ok (constants, rest) ∧
      input.ahead = Bytes.ofUInt32 magic ++ Bytes.ofUInt16 version.minor
        ++ Bytes.ofUInt16 version.major ++ middle.ahead := by
  obtain ⟨found, _, foundRead, done⟩ := Reader.bind_ok.mp done
  split at done
  · cases done
  · rename_i isMagic
    obtain ⟨minor, _, minorRead, done⟩ := Reader.bind_ok.mp done
    obtain ⟨major, middle, majorRead, done⟩ := Reader.bind_ok.mp done
    obtain ⟨table, _, tableRead, done⟩ := Reader.bind_ok.mp done
    cases done
    refine ⟨middle, tableRead, ?_⟩
    rw [Reader.recovers_uint32 foundRead, Reader.recovers_uint16 minorRead,
      Reader.recovers_uint16 majorRead, show found = magic by simpa using isMagic]
    simp only [List.append_assoc]

/-- All but the constants is written as it was read, and it fits. -/
theorem read_ok {file : ClassFile} {input rest : Input} (done : read input = .ok (file, rest)) :
    file.Fits ∧ file.Readable ∧ ∃ middle last, ConstantTable.read middle = .ok (file.constants, last) ∧
      input.ahead = file.startBytes ++ middle.ahead ∧ last.ahead = file.endBytes ++ rest.ahead := by
  obtain ⟨⟨version, constants⟩, last, startRead, done⟩ := Reader.bind_ok.mp done
  obtain ⟨flags, _, flagsRead, done⟩ := Reader.bind_ok.mp done
  obtain ⟨thisClass, _, thisClassRead, done⟩ := Reader.bind_ok.mp done
  obtain ⟨superClass, _, superClassRead, done⟩ := Reader.bind_ok.mp done
  obtain ⟨interfaces, _, interfacesRead, done⟩ := Reader.bind_ok.mp done
  obtain ⟨fields, _, fieldsRead, done⟩ := Reader.bind_ok.mp done
  obtain ⟨methods, _, methodsRead, done⟩ := Reader.bind_ok.mp done
  obtain ⟨attributes, _, attributesRead, done⟩ := Reader.bind_ok.mp done
  cases done
  obtain ⟨middle, constantsRead, start⟩ := readStart_ok startRead
  obtain ⟨chunks, stored, -, aligned, bound, -⟩ := ConstantTable.read_ok constantsRead
  obtain ⟨interfaceCount, interfacesAhead⟩ := Reader.list_ok Reader.recovers_uint16 interfacesRead
  obtain ⟨fieldsFit, fieldsAhead⟩ := Member.list_ok fieldsRead
  obtain ⟨methodsFit, methodsAhead⟩ := Member.list_ok methodsRead
  obtain ⟨attributeCount, attributesAhead⟩ :=
    Reader.list_ok Attribute.recovers_read attributesRead
  have textsFit : ∀ constant ∈ constants.toList, constant.Fits := by
    intro constant member
    obtain ⟨bytes, -, isStored⟩ := Outcome.exists_right_of_mem stored member
    exact isStored.fits
  have attributesFit := Reader.list_all (fun _ _ _ attrRead => (Attribute.read_ok attrRead).1)
    attributesRead
  have superClassBytes : (if superClass == 0 then none else some superClass).getD 0 = superClass := by
    split
    · rename_i zero
      exact (eq_of_beq zero).symm
    · rfl
  refine ⟨⟨bound, textsFit, interfaceCount, fieldsFit, methodsFit, attributeCount, attributesFit⟩,
    ⟨aligned, ?_⟩, middle, last, constantsRead, start, ?_⟩
  · simp only
    split
    · nofun
    · simp_all
  · rw [Reader.recovers_uint16 flagsRead, Reader.recovers_uint16 thisClassRead,
      Reader.recovers_uint16 superClassRead, interfacesAhead, fieldsAhead, methodsAhead,
      attributesAhead, endBytes, superClassBytes]
    simp only [List.append_assoc]

theorem reads_readStart {version : Version} {constants : ConstantTable} {bytes : Bytes}
    (constantsReads : Reads ConstantTable.read bytes constants) :
    Reads readStart (Bytes.ofUInt32 magic ++ Bytes.ofUInt16 version.minor
      ++ Bytes.ofUInt16 version.major ++ bytes) (version, constants) := by
  simp only [List.append_assoc]
  refine (Reads.uint32 magic).bind ?_
  rw [if_neg (by simp)]
  exact (Reads.uint16 _).bind ((Reads.uint16 _).bind (constantsReads.andThen (.pure _)))

/-- Class files that fit are read back. -/
theorem Fits.reads {file : ClassFile} (fits : file.Fits) (readable : file.Readable) :
    Reads read file.encode file := by
  have start : Reads readStart (file.startBytes ++ file.constants.encode)
      (file.version, file.constants) :=
    reads_readStart (ConstantTable.reads_encode readable.aligned fits.slots fits.constants)
  have superClass : (if file.superClass.getD 0 == 0 then none else some (file.superClass.getD 0))
      = file.superClass := by
    cases given : file.superClass with
    | none => rfl
    | some index =>
      have nonzero : index ≠ 0 := fun zero => readable.superClass (zero ▸ given)
      simp [nonzero]
  have interfaces := Reads.list fits.interfaces fun index _ => Reads.uint16 index
  have attributes := Reads.list fits.attributes fun attr among => (fits.eachAttribute attr among).reads
  rw [encode_eq, ← List.append_assoc, endBytes]
  simp only [List.append_assoc _ _ (Bytes.ofList Attribute.encode _)]
  refine start.bind ?_
  simp only [List.append_assoc]
  refine (Reads.uint16 _).bind ((Reads.uint16 _).bind ((Reads.uint16 _).bind ?_))
  refine interfaces.bind (fits.fields.reads.bind (fits.methods.reads.bind (attributes.andThen ?_)))
  rw [superClass]
  exact .pure file

theorem parse_ok {bytes : Bytes} {file : ClassFile} : parse bytes = .ok file ↔
    ∃ rest, read ⟨0, bytes⟩ = .ok (file, rest) ∧ rest.ahead = [] := by
  unfold parse Reader.runFrom
  constructor
  · intro done
    obtain ⟨⟨value, ahead⟩, reads, done⟩ := Outcome.bind_ok.mp done
    split at reads
    · rename_i readFile rest fileRead
      cases reads
      split at done
      · rename_i same
        cases done
        obtain ⟨rfl, nothing⟩ := Prod.mk.inj same
        exact ⟨rest, fileRead, nothing⟩
      · cases done
    · cases reads
  · rintro ⟨rest, fileRead, nothing⟩
    rw [fileRead]
    simp only [nothing]
    rfl

theorem parse_fits {bytes : Bytes} {file : ClassFile} (parsed : parse bytes = .ok file) :
    file.Fits ∧ file.Readable := by
  obtain ⟨rest, fileRead, -⟩ := parse_ok.mp parsed
  obtain ⟨fits, readable, -⟩ := read_ok fileRead
  exact ⟨fits, readable⟩

/-- What was written is read back if and only if it fits. -/
theorem parse_encode_iff {file : ClassFile} (readable : file.Readable) :
    parse file.encode = .ok file ↔ file.Fits := by
  constructor
  · exact fun parsed => (parse_fits parsed).1
  · intro fits
    have reads := fits.reads readable 0 []
    rw [List.append_nil] at reads
    exact parse_ok.mpr ⟨_, reads, rfl⟩

/-- The name is found without reading what comes after it. -/
theorem peekName_eq {bytes : Bytes} {file : ClassFile} {rest : Input}
    (done : read ⟨0, bytes⟩ = .ok (file, rest)) : peekName bytes = file.name := by
  obtain ⟨⟨version, constants⟩, _, startRead, done⟩ := Reader.bind_ok.mp done
  obtain ⟨flags, _, flagsRead, done⟩ := Reader.bind_ok.mp done
  obtain ⟨thisClass, last, thisClassRead, done⟩ := Reader.bind_ok.mp done
  obtain ⟨superClass, _, -, done⟩ := Reader.bind_ok.mp done
  obtain ⟨interfaces, _, -, done⟩ := Reader.bind_ok.mp done
  obtain ⟨fields, _, -, done⟩ := Reader.bind_ok.mp done
  obtain ⟨methods, _, -, done⟩ := Reader.bind_ok.mp done
  obtain ⟨attributes, _, -, done⟩ := Reader.bind_ok.mp done
  cases done
  unfold peekName Reader.runFrom readName ClassFile.name
  rw [Reader.bind_of_ok startRead]
  dsimp only
  rw [Reader.bind_of_ok flagsRead, Reader.bind_of_ok thisClassRead]
  cases constants.binaryName thisClass <;> rfl

/-- The bodies of the texts among the constants of a class file. -/
def textBodies (bytes : Bytes) : List Bytes :=
  match bytes.drop 8 with
  | high :: low :: constants =>
    ConstantTable.textBodies (high.toNat * 256 + low.toNat - 1) constants
  | _ => []

theorem textBodies_eq (file : ClassFile) {size : Nat} (bound : size ≤ Pool.maxSlots)
    (bytes : Bytes) :
    textBodies (file.startBytes ++ (Bytes.ofUInt16 (UInt16.ofNat size) ++ bytes)) =
      ConstantTable.textBodies (size - 1) bytes := by
  have short : size < 2 ^ 16 := Nat.lt_succ_of_le bound
  change ConstantTable.textBodies (_ * 256 + _ - 1) bytes = _
  rw [Reader.ofUInt16_value short]

/-- A class file is written as the bytes that it was read from if and only if all its texts were in
the form that texts are written in. Its name is found in these bytes also without reading all of
them. -/
theorem encode_parsed {bytes : Bytes} {file : ClassFile} (parsed : parse bytes = .ok file) :
    (file.encode = bytes ↔
      ∀ body ∈ textBodies bytes, ∃ text, ModifiedUtf8.encode text = body) ∧
    peekName bytes = file.name := by
  obtain ⟨rest, fileRead, nothing⟩ := parse_ok.mp parsed
  obtain ⟨-, -, middle, last, constantsRead, start, finish⟩ := read_ok fileRead
  obtain ⟨chunks, stored, slots, -, bound, constants⟩ := ConstantTable.read_ok constantsRead
  refine ⟨?_, peekName_eq fileRead⟩
  rw [nothing, List.append_nil] at finish
  have whole : bytes = file.startBytes ++ (Bytes.ofUInt16 (UInt16.ofNat file.constants.size)
      ++ (chunks.flatten ++ file.endBytes)) := by rw [← finish, ← constants, ← start]
  rw [whole, textBodies_eq file bound, ← slots, ConstantTable.textBodies_canonical_iff stored,
    encode_eq, ConstantTable.encode, List.append_cancel_left_eq, List.append_assoc,
    List.append_cancel_left_eq]
  exact eq_comm

end ClassFile

/-- A class without a superclass, with flags that mean nothing, a signalling NaN and a text with a
zero in it. -/
def oddBytes : Bytes :=
  [0xCA, 0xFE, 0xBA, 0xBE, 0, 0, 0, 52, 0, 6,
    1, 0, 1, 0x41, 7, 0, 1, 6, 0x7F, 0xF0, 0, 0, 0, 0, 0, 1, 1, 0, 3, 0xC0, 0x80, 0x42,
    0xFF, 0xFF, 0, 2, 0, 0, 0, 1, 0, 2, 0, 0,
    0, 1, 0xF0, 0, 0, 1, 0, 5, 0, 1, 0, 5, 0, 0, 0, 3, 1, 2, 3, 0, 0]

def oddClass : ClassFile where
  version := ⟨52, 0⟩
  constants := .ofList [.utf8 "A", .classRef 1, .double 0x7FF0000000000001, .utf8 "\x00B"]
  flags := 0xFFFF
  thisClass := 2
  superClass := none
  interfaces := [2]
  fields := []
  methods := [⟨0xF000, 1, 5, [⟨5, [1, 2, 3]⟩]⟩]
  attributes := []

theorem odd_parsed : ClassFile.parse oddBytes = .ok oddClass := by cbv

theorem odd_encode : ClassFile.parse oddBytes = .ok oddClass ∧ oddClass.encode = oddBytes ∧
    ClassFile.peekName oddBytes = oddClass.name := by
  have bodies : ClassFile.textBodies oddBytes = [[0x41], [0xC0, 0x80, 0x42]] := by cbv
  obtain ⟨written, named⟩ := ClassFile.encode_parsed odd_parsed
  refine ⟨odd_parsed, written.mpr ?_, named⟩
  rw [bodies]
  intro body member
  rcases List.mem_pair.mp member with rfl | rfl
  · exact ⟨"A", by cbv⟩
  · exact ⟨"\x00B", by cbv⟩

end ClassWeave
