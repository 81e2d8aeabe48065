import ClassWeave.Proofs.ClassFile.RoundTrip
import ClassWeave.Proofs.ClassFile.StackMap
import ClassWeave.Proofs.Code.DebugTables

/-!
# Counts in code

Code has lists of its own: exception entries, attributes, and in these lines, variables and the
entries of a stack map. Each is written after a count of 16 bits, without asking whether it has as
few elements. Code is read back as it was meant exactly if there was room for all counts.
-/

namespace ClassWeave

open PoolM (Yields)
open Reader (Reads Recovers)

namespace Attribute

variable {α : Type} {attr : Attribute} {kind : AttributeKind}

/-- What an attribute is decoded to has been read from its content. -/
theorem decode_ok {reader : Reader α} {value : α} (done : attr.decode kind reader = .ok value) :
    ∃ rest, reader ⟨0, attr.info⟩ = .ok (value, rest) := by
  obtain ⟨⟨found, ahead⟩, ran, done⟩ := Outcome.bind_ok.mp done
  unfold Reader.runFrom at ran
  split at ran
  · rename_i readValue rest readAhead
    cases ran
    cases ahead' : rest.ahead with
    | nil =>
      rw [ahead'] at done
      cases done
      exact ⟨rest, readAhead⟩
    | cons =>
      rw [ahead'] at done
      cases done
  · cases ran

/-- A list is found again in an attribute exactly if its elements can be counted. -/
theorem decode_list_iff {item : Reader α} {write : α → Bytes} {values : List α}
    (info : attr.info = Bytes.ofList write values)
    (each : ∀ value ∈ values, Reads item (write value) value) :
    attr.decode kind (Reader.list item) = .ok values ↔ values.length < 2 ^ 16 := by
  constructor
  · intro done
    obtain ⟨rest, valuesRead⟩ := decode_ok done
    exact Reader.list_length valuesRead
  · exact fun short => decode_reads (info ▸ Reads.list short each)

end Attribute

namespace ExceptionEntry

theorem reads (entry : ExceptionEntry) : Reads read entry.encode entry := by
  simp only [encode, List.append_assoc]
  exact (Reads.uint16 _).bind ((Reads.uint16 _).bind ((Reads.uint16 _).bind
    ((Reads.uint16 _).andThen (.pure _))))

end ExceptionEntry

namespace CodeAttribute

/-- Can everything that goes with the bytes be counted in the bits that it has? -/
structure Fits (code : CodeAttribute) : Prop where
  bytes : code.code.length < 2 ^ 32
  exceptions : code.exceptions.length < 2 ^ 16
  attributes : code.attributes.length < 2 ^ 16
  each : ∀ attr ∈ code.attributes, attr.Fits

theorem Fits.reads {code : CodeAttribute} (fits : code.Fits) : Reads read code.encode code := by
  have exceptions := Reads.list fits.exceptions fun entry _ => entry.reads
  have attributes := Reads.list fits.attributes fun attr among => (fits.each attr among).reads
  unfold encode
  simp only [List.append_assoc]
  refine (Reads.uint16 _).bind ((Reads.uint16 _).bind ((Reads.uint32 _).bind ?_))
  rw [UInt32.toNat_ofNat_of_lt' fits.bytes]
  exact (Reads.take _).bind (exceptions.bind (attributes.andThen (.pure code)))

theorem read_fits {code : CodeAttribute} {input rest : Input}
    (done : read input = .ok (code, rest)) : code.Fits := by
  obtain ⟨maxStack, _, -, done⟩ := Reader.bind_ok.mp done
  obtain ⟨maxLocals, _, -, done⟩ := Reader.bind_ok.mp done
  obtain ⟨length, _, -, done⟩ := Reader.bind_ok.mp done
  obtain ⟨bytes, _, bytesRead, done⟩ := Reader.bind_ok.mp done
  obtain ⟨exceptions, _, exceptionsRead, done⟩ := Reader.bind_ok.mp done
  obtain ⟨attributes, _, attributesRead, done⟩ := Reader.bind_ok.mp done
  cases done
  exact ⟨(Reader.take_ok bytesRead).1 ▸ length.toNat_lt, Reader.list_length exceptionsRead,
    Reader.list_length attributesRead,
    Reader.list_all (fun _ _ _ attrRead => (Attribute.read_ok attrRead).1) attributesRead⟩

/-- Code is found again in its attribute exactly if it fits. -/
theorem decodeCode_iff {attr : Attribute} {code : CodeAttribute} (info : attr.info = code.encode) :
    attr.decodeCode = .ok code ↔ code.Fits := by
  constructor
  · intro done
    obtain ⟨rest, codeRead⟩ := Attribute.decode_ok done
    exact read_fits codeRead
  · exact fun fits => Attribute.decode_reads (info ▸ fits.reads)

end CodeAttribute

/-- Only entries that fit are read at all. -/
theorem StackMapEntry.read_fits {entry : StackMapEntry} {input rest : Input}
    (done : read input = .ok (entry, rest)) : entry.Fits := by
  obtain ⟨tag, middle, -, done⟩ := Reader.bind_ok.mp done
  unfold readTagged at done
  split at done
  · cases done
    rfl
  split at done
  · obtain ⟨value, _, -, done⟩ := Reader.bind_ok.mp done
    cases done
    rfl
  split at done
  · cases done
  rename_i beyond
  split at done
  · obtain ⟨delta, _, -, done⟩ := Reader.bind_ok.mp done
    obtain ⟨value, _, -, done⟩ := Reader.bind_ok.mp done
    cases done
    rfl
  rename_i other
  split at done
  · rename_i within
    obtain ⟨delta, _, -, done⟩ := Reader.bind_ok.mp done
    cases done
    have few : 0 < 251 - tag ∧ 251 - tag < 4 := by grind
    simpa [Fits, isInRange] using few
  rename_i beyond
  split at done
  · obtain ⟨delta, _, -, done⟩ := Reader.bind_ok.mp done
    cases done
    rfl
  rename_i other
  split at done
  · rename_i within
    obtain ⟨delta, _, -, done⟩ := Reader.bind_ok.mp done
    obtain ⟨added, _, addedRead, done⟩ := Reader.bind_ok.mp done
    cases done
    have few : 0 < tag - 251 ∧ tag - 251 < 4 := by grind
    rw [UInt8.lt_iff_toNat_lt, UInt8.lt_iff_toNat_lt, ← Reader.times_length addedRead] at few
    simpa [Fits, isInRange] using few
  · obtain ⟨delta, _, -, done⟩ := Reader.bind_ok.mp done
    obtain ⟨locals, _, localsRead, done⟩ := Reader.bind_ok.mp done
    obtain ⟨stack, _, stackRead, done⟩ := Reader.bind_ok.mp done
    cases done
    exact ⟨Reader.list_length localsRead, Reader.list_length stackRead⟩

/-- What one of the attributes of code holds. -/
inductive CodeTable where
  | lines (entries : List LineEntry)
  /-- Either of the two variable tables. -/
  | localVariables (inTypeTable : Bool) (entries : List VariableEntry)
  | stackMap (entries : List StackMapEntry)

namespace CodeTable

def kind : CodeTable → AttributeKind
  | lines _ => .lineNumberTable
  | localVariables inTypeTable _ => Disassembly.variableKind inTypeTable
  | stackMap _ => .stackMapTable

def encode : CodeTable → Bytes
  | lines entries => Bytes.ofList LineEntry.encode entries
  | localVariables _ entries => Bytes.ofList VariableEntry.encode entries
  | stackMap entries => encodeStackMap entries

/-- Can the entries, and what is listed in them, be counted in 16 bits? -/
def Fits : CodeTable → Prop
  | lines entries => entries.length < 2 ^ 16
  | localVariables _ entries => entries.length < 2 ^ 16
  | stackMap entries => entries.length < 2 ^ 16 ∧ ∀ entry ∈ entries, entry.Fits

/-- The attribute holds the table, under the name that such tables have. -/
structure IsIn (constants : ConstantTable) (table : CodeTable) (attr : Attribute) : Prop where
  name : attr.name constants = .ok table.kind.name
  info : attr.info = table.encode

/-- The table is what is read from the attribute. -/
def ReadFrom (table : CodeTable) (attr : Attribute) : Prop :=
  match table with
  | lines entries => attr.decodeLines = .ok entries
  | localVariables inTypeTable entries =>
    attr.decodeVariables (Disassembly.variableKind inTypeTable) = .ok entries
  | stackMap entries => attr.decode .stackMapTable StackMapEntry.readMap = .ok entries

/-- A table is found again in its attribute exactly if it fits. -/
theorem IsIn.readFrom_iff {constants : ConstantTable} {table : CodeTable} {attr : Attribute}
    (isIn : table.IsIn constants attr) : table.ReadFrom attr ↔ table.Fits := by
  obtain ⟨-, info⟩ := isIn
  cases table with
  | lines entries => exact Attribute.decode_list_iff info fun entry _ => entry.reads
  | localVariables _ entries => exact Attribute.decode_list_iff info fun entry _ => entry.reads
  | stackMap entries =>
    constructor
    · intro done
      obtain ⟨rest, entriesRead⟩ := Attribute.decode_ok done
      exact ⟨Reader.list_length entriesRead,
        Reader.list_all (fun _ _ _ done => StackMapEntry.read_fits done) entriesRead⟩
    · rintro ⟨short, fit⟩
      exact Attribute.decode_reads (info ▸ StackMapEntry.reads_map short fit)

theorem readFrom_all {constants : ConstantTable} {tables : List CodeTable}
    {attributes : List Attribute} (each : List.Forall₂ (IsIn constants) tables attributes) :
    List.Forall₂ ReadFrom tables attributes ↔ ∀ table ∈ tables, table.Fits := by
  induction each with
  | nil => simp
  | cons first _ ih => rw [List.forall₂_cons, List.forall_mem_cons, first.readFrom_iff, ih]

end CodeTable

/-- The code is what is read from an attribute, and the tables are what is read from its own. -/
structure CodeAttribute.ReadFrom (code : CodeAttribute) (tables : List CodeTable)
    (attr : Attribute) : Prop where
  decoded : attr.decodeCode = .ok code
  tables : List.Forall₂ CodeTable.ReadFrom tables code.attributes

namespace Assembly

variable {constants : ConstantTable} {body : Body} {before after : Pool}
  {attributes : List Attribute}

/-- A few attributes hold tables. -/
def HoldTables (constants : ConstantTable) (most : Nat) (attributes : List Attribute) : Prop :=
  ∃ tables : List CodeTable, List.Forall₂ (CodeTable.IsIn constants) tables attributes ∧
    attributes.length ≤ most

theorem HoldTables.append {most mostToo : Nat} {others : List Attribute}
    (hold : HoldTables constants most attributes) (holdToo : HoldTables constants mostToo others) :
    HoldTables constants (most + mostToo) (attributes ++ others) := by
  obtain ⟨tables, each, few⟩ := hold
  obtain ⟨more, eachToo, fewToo⟩ := holdToo
  refine ⟨tables ++ more, List.rel_append each eachToo, ?_⟩
  rw [List.length_append]
  exact Nat.add_le_add few fewToo

theorem tableUnlessEmpty_holdTables {α : Type} {table : List α → PoolM Attribute}
    {entries : List α} (done : Yields (tableUnlessEmpty table entries) before attributes after)
    (sound : before.Sound) (kept : constants.Extends after.table) {made : List α → CodeTable}
    (makes : table = fun entries => PoolM.attributeOf (made entries).kind (made entries).encode) :
    HoldTables constants 1 attributes := by
  obtain ⟨-, rfl⟩ | ⟨attr, rfl, added⟩ := tableUnlessEmpty_cases done
  · exact ⟨[], .nil, Nat.zero_le 1⟩
  · rw [makes] at added
    obtain ⟨named, info⟩ := added.attributeOf sound
    exact ⟨[made entries], .cons ⟨attr.name_stable kept named, info⟩ .nil, Nat.le_refl 1⟩

/-- The attributes of new code are tables, of each kind one at most. -/
theorem Trace.Tabulates.holdTables {trace : Trace}
    (tabulates : trace.Tabulates body after attributes) (sound : trace.covered.Sound)
    (kept : constants.Extends after.table) : HoldTables constants 4 attributes := by
  obtain @⟨lines, plain, typed, maps, first, second, third, fourth, linesFound, drafted,
    plainFound, typedFound, mapped⟩ := tabulates
  have grownFirst := (lineTable_interning _).grows.yields linesFound
  have grownSecond := (drafted.forall₂ (variableDraft_grows _)).1
  have grownThird := (variableTable_interning _ _).grows.yields plainFound
  have grownFourth := (variableTable_interning _ _).grows.yields typedFound
  have grownLast := Trace.mapped_grown mapped
  have soundSecond := grownSecond.sound (grownFirst.sound sound)
  have soundThird := grownThird.sound soundSecond
  have mapHeld : HoldTables constants 1 maps := by
    rcases mapped with ⟨rfl, -⟩ | ⟨context, map, rfl, mapFound⟩
    · exact ⟨[], .nil, Nat.zero_le 1⟩
    · obtain ⟨entries, _, _, _, _, _, -, stored⟩ := stackMap_cases mapFound
      have named := stored.name (grownFourth.sound soundThird)
      exact ⟨[.stackMap entries], .cons ⟨map.name_stable kept named, stored.info⟩ .nil,
        Nat.le_refl 1⟩
  have keptFourth := kept.trans grownLast.kept
  have keptThird := keptFourth.trans grownFourth.kept
  have keptFirst := keptThird.trans (grownSecond.trans grownThird).kept
  have linesHeld := tableUnlessEmpty_holdTables linesFound sound keptFirst
    (show _ = fun entries => PoolM.attributeOf (CodeTable.lines entries).kind _ from rfl)
  have plainHeld := tableUnlessEmpty_holdTables plainFound soundSecond keptThird
    (show _ = fun entries => PoolM.attributeOf (CodeTable.localVariables false entries).kind _ from rfl)
  have typedHeld := tableUnlessEmpty_holdTables typedFound soundThird keptFourth
    (show _ = fun entries => PoolM.attributeOf (CodeTable.localVariables true entries).kind _ from rfl)
  exact ((linesHeld.append plainHeld).append typedHeld).append mapHeld

end Assembly

/-- The attributes of new code are tables. The code is read back with them exactly if the exception
entries can be counted in 16 bits, and each table fits in its attribute. -/
theorem Body.assemble_readFrom_iff {body : Body} {context : AssemblyContext} {before after : Pool}
    {code : CodeAttribute} {constants : ConstantTable} (sound : before.Sound)
    (done : Yields (body.assemble context) before code after)
    (kept : constants.Extends after.table) :
    ∃ tables, List.Forall₂ (CodeTable.IsIn constants) tables code.attributes ∧
      ∀ attr : Attribute, attr.info = code.encode →
        (code.ReadFrom tables attr ↔ code.exceptions.length < 2 ^ 16 ∧
          (∀ inner ∈ code.attributes, inner.Fits) ∧ ∀ table ∈ tables, table.Fits) := by
  obtain ⟨trace, explains⟩ := Assembly.explained done
  obtain ⟨tables, each, few⟩ :=
    explains.attributes.holdTables (explains.covered_grown.sound sound) kept
  obtain ⟨stop, -⟩ := explains.emitsFrom
  have short : code.code.length < 2 ^ 32 := by
    rw [← stop, explains.start_length]
    exact explains.short.trans_lt (by decide)
  have tablesRead := CodeTable.readFrom_all each
  refine ⟨tables, each, fun attr info => ?_⟩
  constructor
  · intro readFrom
    have fits := (CodeAttribute.decodeCode_iff info).mp readFrom.decoded
    exact ⟨fits.exceptions, fits.each, tablesRead.mp readFrom.tables⟩
  · rintro ⟨exceptions, attributes, fit⟩
    exact ⟨(CodeAttribute.decodeCode_iff info).mpr
      ⟨short, exceptions, few.trans_lt (by decide), attributes⟩, tablesRead.mpr fit⟩

end ClassWeave
