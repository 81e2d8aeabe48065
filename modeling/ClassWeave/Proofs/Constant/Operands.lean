import ClassWeave.ClassFile.Attribute
import ClassWeave.Code.Instruction
import ClassWeave.Proofs.Constant.Growth
import ClassWeave.Proofs.Descriptor.RoundTrip

/-!
# Constants are read back

A text or an operand that is put into a pool is found again in the slot that it got. It may share
the slot with an equal one, or be in another slot than the one that it was read from.
-/

namespace ClassWeave

open ConstantTable (Stable Extends)

/-- The class whose name is in a class constant. -/
theorem ConstantTable.classType_of_name {table : ConstantTable} {index text : ConstantIndex}
    {type : RefType} (isClass : table.constant index = .ok (.classRef text))
    (isName : table.utf8 text = .ok type.className) : table.classType index = .ok type := by
  refine Outcome.bind_ok.mpr ⟨_, isClass, Outcome.bind_ok.mpr ⟨_, isName, ?_⟩⟩
  rw [type.ofClassName_className]
  rfl

namespace PoolM

variable {before after : Pool} {index : ConstantIndex}

theorem intern_reads {constant : Constant} (sound : before.Sound)
    (done : Yields (intern constant) before index after) :
    after.table.constant index = .ok constant := by
  have found := sound.intern (congrArg Prod.fst done)
  rw [show (before.intern constant).2 = after from congrArg Prod.snd done] at found
  rw [ConstantTable.constant, found]

/-- A text that has been added is found again under its index. -/
theorem Yields.utf8 {text : String} (done : Yields (utf8 text) before index after)
    (sound : before.Sound) : after.table.utf8 index = .ok text :=
  Outcome.bind_ok.mpr ⟨_, intern_reads sound done, rfl⟩

theorem Yields.attributeOf {kind : AttributeKind} {info : Bytes} {attr : Attribute}
    (done : Yields (attributeOf kind info) before attr after) (sound : before.Sound) :
    attr.name after.table = .ok kind.name ∧ attr.info = info := by
  obtain ⟨index, middle, named, rest⟩ := yields_bind.mp done
  obtain ⟨rfl, rfl⟩ := yields_pure.mp rest
  exact ⟨named.utf8 sound, rfl⟩

/-- A constant that holds the slot of a text leads to the text. -/
theorem className_reads {name : String} (sound : before.Sound)
    (done : Yields (className name) before index after) :
    ∃ text, after.table.constant index = .ok (.classRef text) ∧
      after.table.utf8 text = .ok name := by
  obtain ⟨text, middle, first, done⟩ := yields_bind.mp done
  have soundThen := ((interning_utf8 name).grows.yields first).sound sound
  have grown := (grows_intern _).yields done
  exact ⟨text, intern_reads soundThen done, Stable.utf8 text grown.kept (first.utf8 sound)⟩

theorem classType_reads (type : RefType) (sound : before.Sound)
    (done : Yields (classType type) before index after) :
    after.table.classType index = .ok type := by
  obtain ⟨text, isClass, isName⟩ := className_reads sound done
  exact ConstantTable.classType_of_name isClass isName

theorem binaryName_reads {name : BinaryName} (sound : before.Sound)
    (done : Yields (binaryName name) before index after) :
    after.table.binaryName index = .ok name :=
  Outcome.bind_ok.mpr ⟨_, classType_reads (.object name) sound done, rfl⟩

theorem nameAndType_reads {name : UnqualifiedName} {descriptor : String} (sound : before.Sound)
    (done : Yields (nameAndType name descriptor) before index after) :
    after.table.nameAndType index = .ok (name.text, descriptor) := by
  obtain ⟨text, middle, first, done⟩ := yields_bind.mp done
  obtain ⟨type, last, second, done⟩ := yields_bind.mp done
  have grownFirst := (interning_utf8 _).grows.yields first
  have grownSecond := (interning_utf8 _).grows.yields second
  have grown := (grows_intern _).yields done
  have soundThen := grownFirst.sound sound
  have isName := Stable.utf8 text (grownSecond.trans grown).kept (first.utf8 sound)
  have isType := Stable.utf8 type grown.kept (second.utf8 soundThen)
  exact Outcome.bind_ok.mpr ⟨_, intern_reads (grownSecond.sound soundThen) done,
    Outcome.bind_ok.mpr ⟨_, isName, Outcome.bind_ok.mpr ⟨_, isType, rfl⟩⟩⟩

/-- The name and the type of a member are found in what joins them. -/
theorem nameAndDescriptor_reads {α : Type} {name : UnqualifiedName} {descriptor : String}
    {parse : String → Except DescriptorError α} {value : α} (sound : before.Sound)
    (parsed : parse descriptor = .ok value)
    (done : Yields (nameAndType name descriptor) before index after) :
    after.table.nameAndDescriptor parse index = .ok (name.text, value) := by
  refine Outcome.bind_ok.mpr ⟨_, nameAndType_reads sound done, Outcome.bind_ok.mpr ⟨value, ?_, rfl⟩⟩
  rw [parseDescriptor, parsed]

/-- A member's constant leads to its owner, and to its name and its type. -/
theorem member_reads {α : Type} (owner : RefType) {name : UnqualifiedName} {descriptor : String}
    {member : ConstantIndex → ConstantIndex → Constant}
    {parse : String → Except DescriptorError α} {value : α} (sound : before.Sound)
    (parsed : parse descriptor = .ok value)
    (done : Yields (do
      let owned ← classType owner
      let signature ← nameAndType name descriptor
      intern (member owned signature)) before index after) :
    ∃ owned signature, after.table.constant index = .ok (member owned signature) ∧
      after.table.nameAndDescriptor parse signature = .ok (name.text, value) ∧
      after.table.classType owned = .ok owner := by
  obtain ⟨owned, middle, first, done⟩ := yields_bind.mp done
  obtain ⟨signature, last, second, done⟩ := yields_bind.mp done
  have grownFirst := (interning_className _).grows.yields first
  have grownSecond := (interning_nameAndType _ _).grows.yields second
  have grown := (grows_intern _).yields done
  have soundThen := grownFirst.sound sound
  exact ⟨owned, signature, intern_reads (grownSecond.sound soundThen) done,
    Stable.nameAndDescriptor parse signature grown.kept
      (nameAndDescriptor_reads soundThen parsed second),
    Stable.classType owned (grownSecond.trans grown).kept (classType_reads owner sound first)⟩

theorem fieldRef_reads {field : FieldRef} (sound : before.Sound)
    (done : Yields (fieldRef field) before index after) :
    after.table.fieldRef index = .ok field := by
  obtain ⟨owned, signature, isField, isMember, isOwner⟩ :=
    member_reads (.object field.owner) sound field.type.parse_render done
  have isPlain : after.table.binaryName owned = .ok field.owner :=
    Outcome.bind_ok.mpr ⟨_, isOwner, rfl⟩
  refine Outcome.bind_ok.mpr ⟨_, isField, Outcome.bind_ok.mpr ⟨_, isMember,
    Outcome.bind_ok.mpr ⟨_, isPlain, ?_⟩⟩⟩
  rw [ConstantTable.memberName, field.name.ofString_text]
  rfl

theorem methodRef_reads {method : MethodRef} (sound : before.Sound)
    (done : Yields (methodRef method) before index after) :
    after.table.methodRef index = .ok method := by
  obtain ⟨owned, signature, isMethod, isMember, isOwner⟩ :=
    member_reads method.owner sound method.descriptor.parse_render done
  refine Outcome.bind_ok.mpr ⟨_, isMethod, Outcome.bind_ok.mpr ⟨_, isMember,
    Outcome.bind_ok.mpr ⟨_, isOwner, ?_⟩⟩⟩
  rw [ConstantTable.memberName, method.name.ofString_text]
  rfl

end PoolM

/-- The slot that a constant stays in, if only a class file can describe it. -/
def Loadable.slot? : Loadable → Option ConstantIndex
  | methodType index | methodHandle index | dynamic index _ => some index
  | _ => none

namespace ConstantTable

variable {table : ConstantTable} {slot index : ConstantIndex}

theorem loadable_slot {constant : Loadable} (read : table.loadable slot = .ok constant) :
    ∀ index ∈ constant.slot?, index = slot := by
  obtain ⟨content, -, read⟩ := Outcome.bind_ok.mp read
  cases content with
  | string | classRef | dynamic =>
    obtain ⟨value, -, read⟩ := Outcome.bind_ok.mp read
    cases Outcome.pure_ok.mp read
    simp [Loadable.slot?]
  | integer | float | long | double | methodType | methodHandle =>
    cases Outcome.pure_ok.mp read
    simp [Loadable.slot?]
  | utf8 | fieldRef | methodRef | nameAndType | invokeDynamic | module | package =>
    exact (Outcome.not_throw_ok read).elim

theorem callSite_slot {site : CallSiteRef} (read : table.callSite slot = .ok site) :
    site.index = slot := by
  obtain ⟨content, -, read⟩ := Outcome.bind_ok.mp read
  cases content with
  | invokeDynamic bootstrap signature =>
    obtain ⟨value, -, read⟩ := Outcome.bind_ok.mp read
    cases Outcome.pure_ok.mp read
    rfl
  | _ => exact (Outcome.not_throw_ok read).elim

end ConstantTable

namespace PoolM

variable {before after : Pool} {index slot : ConstantIndex} {table : ConstantTable}

/-- A constant that is spelt out is read back, wherever it comes from. -/
theorem spelt_reads {constant : Loadable} (sound : before.Sound) (spelt : constant.slot? = none)
    (done : Yields (loadable constant) before index after) :
    after.table.loadable index = .ok constant := by
  cases constant with
  | string text =>
    obtain ⟨place, middle, first, done⟩ := yields_bind.mp done
    have grown := (grows_intern _).yields done
    have soundThen := ((interning_utf8 _).grows.yields first).sound sound
    have isText := Stable.utf8 place grown.kept (first.utf8 sound)
    exact Outcome.bind_ok.mpr ⟨_, intern_reads soundThen done,
      Outcome.bind_ok.mpr ⟨_, isText, rfl⟩⟩
  | int | float | long | double => exact Outcome.bind_ok.mpr ⟨_, intern_reads sound done, rfl⟩
  | classRef type =>
    obtain ⟨text, isClass, -⟩ := className_reads sound done
    exact Outcome.bind_ok.mpr ⟨_, isClass,
      Outcome.bind_ok.mpr ⟨_, classType_reads type sound done, rfl⟩⟩
  | methodType | methodHandle | dynamic => cases spelt

theorem loadable_reads {constant : Loadable} (sound : before.Sound)
    (kept : before.table.Extends table) (read : table.loadable slot = .ok constant)
    (done : Yields (loadable constant) before index after) :
    after.table.loadable index = .ok constant := by
  have stays := ConstantTable.loadable_slot read
  cases constant with
  | string | int | float | long | double | classRef => exact spelt_reads sound rfl done
  | methodType | methodHandle | dynamic =>
    obtain ⟨rfl, rfl⟩ := yields_pure.mp done
    cases stays _ rfl
    exact Stable.loadable _ kept read

/-- Whatever an operand was read from, it is found again where it was put. -/
theorem operand_reads {kind : OperandKind} {operand : Symbolic kind} (sound : before.Sound)
    (kept : before.table.Extends table) (read : table.operand kind slot = .ok operand)
    (done : Yields (PoolM.operand kind operand) before index after) :
    after.table.operand kind index = .ok operand := by
  cases kind with
  | classRef => exact classType_reads _ sound done
  | loadable => exact loadable_reads sound kept read done
  | field => exact fieldRef_reads sound done
  | method => exact methodRef_reads sound done
  | callSite =>
    have same := ConstantTable.callSite_slot read
    obtain ⟨rfl, rfl⟩ := yields_pure.mp done
    rw [same]
    exact Stable.callSite slot kept read

theorem instruction_reads {raw lowered : PoolInstruction} {step : SymInstruction}
    (sound : before.Sound) (kept : before.table.Extends table)
    (read : raw.mapM table.operand = .ok step)
    (done : Yields (step.mapM PoolM.operand) before lowered after) :
    lowered.mapM after.table.operand = .ok step := by
  cases raw with
  | loadConstant | loadWideConstant | field | invoke | invokeDynamic | onClass | newMultiArray =>
    obtain ⟨operand, operandRead, rfl⟩ := Outcome.map_ok.mp read
    obtain ⟨index, put, rfl⟩ := yields_map.mp done
    exact Outcome.map_ok.mpr ⟨operand, operand_reads sound kept operandRead put, rfl⟩
  | plain | pushByte | pushShort | load | store | increment | newPrimitiveArray =>
    cases read
    obtain ⟨rfl, rfl⟩ := yields_pure.mp done
    rfl

end PoolM

end ClassWeave
