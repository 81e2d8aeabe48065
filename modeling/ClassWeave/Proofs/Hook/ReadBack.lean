import ClassWeave.Hook.Transformer
import ClassWeave.Proofs.Code.Counts
import ClassWeave.Proofs.Hook.HookedClass

/-!
# Hooked classes are read back

A transformer writes a class without asking whether its members can be counted and its texts are
short enough. Two fields, a method and texts may have been added to it, and the class is read back as
it was meant exactly if there was room for them. The same goes for what is counted in new code.
-/

namespace ClassWeave

namespace Transformer

/-- The bytes hold a class that has a spec and does not declare the fields of the hook, and this is
the class with its hooks. -/
inductive Rewrites (transformer : Transformer) (bytes : Bytes) (name : BinaryName)
    (hooked : ClassFile) : Prop where
  | mk {spec : HookSpec} {file : ClassFile} {fields : HookFields}
      (peeked : ClassFile.peekName bytes = .ok name)
      (hasSpec : transformer.specs[name]? = some spec)
      (parsed : ClassFile.parse bytes = .ok file)
      (fieldNames : HookFields.of name spec.interface = .ok fields)
      (undeclared : fields.isDeclaredBy file = .ok false)
      (weaves : file.withHooks spec transformer.settings transformer.classPath.hierarchy =
        .ok hooked)

variable {transformer : Transformer} {bytes output : Bytes} {name : BinaryName}

theorem transform_rewrites (done : transformer.transform bytes = .ok (.woven name output)) :
    ∃ hooked, transformer.Rewrites bytes name hooked ∧ hooked.encode = output := by
  obtain ⟨found, peeked, done⟩ := Outcome.bind_ok.mp done
  split at done
  · cases done
  rename_i spec hasSpec
  obtain ⟨file, parsed, done⟩ := Outcome.bind_ok.mp done
  obtain ⟨fields, fieldNames, done⟩ := Outcome.bind_ok.mp done
  obtain ⟨declared, undeclared, done⟩ := Outcome.bind_ok.mp done
  split at done
  · cases done
  rename_i notDeclared
  obtain ⟨hooked, weaves, done⟩ := Outcome.bind_ok.mp done
  cases done
  rw [Outcome.mapError_ok] at peeked parsed fieldNames undeclared
  rw [Bool.not_eq_true] at notDeclared
  exact ⟨hooked, ⟨peeked, hasSpec, parsed, fieldNames, notDeclared ▸ undeclared, weaves⟩, rfl⟩

/-- What was written is a class that was read, with its hooks. -/
theorem transform_woven (done : transformer.transform bytes = .ok (.woven name output)) :
    ∃ file spec hooked, ClassFile.peekName bytes = .ok name ∧
      transformer.specs[name]? = some spec ∧ ClassFile.parse bytes = .ok file ∧
      file.withHooks spec transformer.settings transformer.classPath.hierarchy = .ok hooked ∧
      hooked.encode = output := by
  obtain ⟨hooked, ⟨peeked, hasSpec, parsed, -, -, weaves⟩, written⟩ := transform_rewrites done
  exact ⟨_, _, hooked, peeked, hasSpec, parsed, weaves, written⟩

end Transformer

/-- None of the fields is named like the first field of the hook if all of them have other names. -/
theorem HookFields.isNamedIn_eq_false {fields : HookFields} {table : ConstantTable}
    {members : List Member} : fields.isNamedIn table members = .ok false ↔
      ∀ member ∈ members, ∃ name, member.name table = .ok name ∧
        name ≠ fields.classField.name.text := by
  induction members with
  | nil => exact ⟨nofun, fun _ => rfl⟩
  | cons member members ih =>
    rw [isNamedIn, Outcome.bind_ok, List.forall_mem_cons, ← ih]
    constructor
    · rintro ⟨name, named, others⟩
      split at others
      · cases others
      · rename_i different
        exact ⟨⟨name, named, different⟩, others⟩
    · rintro ⟨⟨name, named, different⟩, others⟩
      refine ⟨name, named, ?_⟩
      rw [if_neg different]
      exact others

theorem Member.KeepsAllButCode.length_attributes {spec : HookSpec} {call : HookCall}
    {constants : ConstantTable} {method hooked : Member}
    (keeps : method.KeepsAllButCode spec call constants hooked) :
    hooked.attributes.length = method.attributes.length := by
  rcases keeps.attributes with same | ⟨_, _, position, _, attr, -, -, -, -, same⟩
  · rw [same]
  · rw [same, List.length_set]

namespace ClassFile

variable {bytes : Bytes} {file hooked : ClassFile} {spec : HookSpec} {settings : Settings}
  {hierarchy : Hierarchy}

theorem withHooks_readable (parsed : parse bytes = .ok file)
    (done : file.withHooks spec settings hierarchy = .ok hooked) : hooked.Readable := by
  obtain ⟨fits, readable⟩ := parse_fits parsed
  obtain ⟨fields, weaving, -, hookedClass⟩ := withHooks_hookedClass fits.slots done
  refine ⟨(withHooks_constants fits.slots done).1 readable.aligned, ?_⟩
  rw [hookedClass.kept]
  exact readable.superClass

/-- What hooking may leave without room: everything else was counted when the class was read. -/
theorem withHooks_fits_iff (parsed : parse bytes = .ok file)
    (done : file.withHooks spec settings hierarchy = .ok hooked) : hooked.Fits ↔
      file.fields.length + 2 < 2 ^ 16 ∧ hooked.methods.length < 2 ^ 16 ∧
      (∀ constant ∈ hooked.constants.toList, constant.Fits) ∧
      ∀ method ∈ hooked.methods, ∀ attr ∈ method.attributes, attr.Fits := by
  obtain ⟨fits, -⟩ := parse_fits parsed
  obtain ⟨fields, weaving, -, hookedClass⟩ := withHooks_hookedClass fits.slots done
  obtain ⟨first, second, added, firstDeclared, secondDeclared⟩ := hookedClass.fields
  have fieldCount : hooked.fields.length = file.fields.length + 2 := by
    rw [added, List.length_append]
    rfl
  constructor
  · intro hookedFits
    exact ⟨fieldCount ▸ hookedFits.fields.count, hookedFits.methods.count, hookedFits.constants,
      fun method member => (hookedFits.methods.each method member).attributes⟩
  · rintro ⟨fieldRoom, methodRoom, textRoom, codeRoom⟩
    have kept := hookedClass.kept
    refine ⟨(withHooks_constants fits.slots done).2, textRoom, by rw [kept]; exact fits.interfaces,
      ⟨fieldCount ▸ fieldRoom, ?_⟩, ⟨methodRoom, ?_⟩, by rw [kept]; exact fits.attributes,
      by rw [kept]; exact fits.eachAttribute⟩
    · rw [added]
      intro field member
      rcases List.mem_append.mp member with old | new
      · exact fits.fields.each field old
      · have bare : field.attributes = [] := by
          rcases List.mem_pair.mp new with rfl | rfl
          · exact firstDeclared.attributes
          · exact secondDeclared.attributes
        exact ⟨by simp [bare], by simp [bare]⟩
    · intro method member
      refine ⟨?_, codeRoom method member⟩
      obtain ⟨woven, extra, weaves, methods, initializer⟩ := hookedClass.methods
      rw [methods] at member
      rcases List.mem_append.mp member with old | new
      · obtain ⟨result, isResult, rfl⟩ := List.mem_map.mp old
        obtain ⟨before, among, becomes⟩ := Outcome.exists_left_of_mem weaves isResult
        rw [becomes.keepsAllButCode.length_attributes]
        exact (fits.methods.each before among).count
      · rcases initializer with ⟨-, rfl⟩ | ⟨-, created, rfl, isNew⟩
        · cases new
        · obtain ⟨attr, attributes, -⟩ := isNew.attributes
          rw [List.mem_singleton.mp new, attributes, List.length_singleton]
          decide

end ClassFile

/-- The attributes of a method of the hooked class are those that it had, or hold new code. -/
theorem ClassFile.withHooks_attributes {bytes : Bytes} {file hooked : ClassFile} {spec : HookSpec}
    {settings : Settings} {hierarchy : Hierarchy} (parsed : parse bytes = .ok file)
    (done : file.withHooks spec settings hierarchy = .ok hooked) {method : Member}
    (member : method ∈ hooked.methods) {attr : Attribute} (among : attr ∈ method.attributes) :
    (∃ old ∈ file.methods, attr ∈ old.attributes) ∨
      ∃ body code, attr.HoldsBody hooked.constants body code := by
  obtain ⟨fields, weaving, -, hookedClass⟩ := withHooks_hookedClass (parse_size parsed) done
  obtain ⟨woven, extra, weaves, methods, initializer⟩ := hookedClass.methods
  rw [methods] at member
  rcases List.mem_append.mp member with old | new
  · obtain ⟨result, isResult, rfl⟩ := List.mem_map.mp old
    obtain ⟨before, isBefore, becomes⟩ := Outcome.exists_left_of_mem weaves isResult
    cases becomes with
    | kept | codeless | untriggered => exact .inl ⟨before, isBefore, among⟩
    | hooked _ _ _ _ assembled | setUp _ _ _ assembled =>
      rcases List.mem_or_eq_of_mem_set among with kept | rfl
      · exact .inl ⟨before, isBefore, kept⟩
      · exact .inr ⟨_, assembled.holdsBody⟩
  · rcases initializer with ⟨-, rfl⟩ | ⟨-, created, rfl, isNew⟩
    · cases new
    · obtain ⟨only, attributes, assembled⟩ := isNew.attributes
      rw [List.mem_singleton.mp new, attributes, List.mem_singleton] at among
      exact .inr ⟨_, among ▸ assembled.holdsBody⟩

/-- What a transformer writes is read back as the hooked class if and only if two more fields, the
methods and the texts can be counted in 16 bits, and the content of each attribute of a method in 32.
Code that is not as it was read is read back with its tables if and only if its exception entries, its
lines, its variables and the entries of its stack map can be counted in 16 bits, and what is in its
attributes in 32. Nothing else keeps either from being read back. -/
theorem Transformer.transform_readBack_iff {transformer : Transformer} {bytes output : Bytes}
    {name : BinaryName} (done : transformer.transform bytes = .ok (.woven name output)) :
    ∃ file spec hooked, ClassFile.parse bytes = .ok file ∧
      transformer.specs[name]? = some spec ∧
      file.withHooks spec transformer.settings transformer.classPath.hierarchy = .ok hooked ∧
      hooked.encode = output ∧
      (ClassFile.parse output = .ok hooked ↔
        file.fields.length + 2 < 2 ^ 16 ∧ hooked.methods.length < 2 ^ 16 ∧
        (∀ constant ∈ hooked.constants.toList, constant.Fits) ∧
        ∀ method ∈ hooked.methods, ∀ attr ∈ method.attributes, attr.Fits) ∧
      ∀ method ∈ hooked.methods, ∀ attr ∈ method.attributes,
        (∃ old ∈ file.methods, attr ∈ old.attributes) ∨
        ∃ body code tables, attr.HoldsBody hooked.constants body code ∧
          List.Forall₂ (CodeTable.IsIn hooked.constants) tables code.attributes ∧
          (code.ReadFrom tables attr ↔ code.exceptions.length < 2 ^ 16 ∧
            (∀ inner ∈ code.attributes, inner.Fits) ∧ ∀ table ∈ tables, table.Fits) := by
  obtain ⟨file, spec, hooked, -, hasSpec, parsed, weaves, rfl⟩ := transform_woven done
  refine ⟨file, spec, hooked, parsed, hasSpec, weaves, rfl, ?_, fun method member attr among => ?_⟩
  · rw [ClassFile.parse_encode_iff (ClassFile.withHooks_readable parsed weaves),
      ClassFile.withHooks_fits_iff parsed weaves]
  · refine (ClassFile.withHooks_attributes parsed weaves member among).imp_right ?_
    rintro ⟨body, code, holds⟩
    obtain ⟨context, before, after, sound, yields, kept⟩ := holds.assembled
    obtain ⟨tables, each, readBack⟩ := body.assemble_readFrom_iff sound yields kept
    exact ⟨body, code, tables, holds, each, readBack attr holds.info⟩

theorem ClassFile.Fits.withFields {file : ClassFile} (fits : file.Fits) {fields : List Member}
    (fit : Member.ListFits fields) : ClassFile.Fits { file with fields } :=
  { fits with fields := fit }

theorem ClassFile.Readable.withFields {file : ClassFile} (readable : file.Readable)
    (fields : List Member) : ClassFile.Readable { file with fields } :=
  ⟨readable.aligned, readable.superClass⟩

def greeterTransformer : Transformer :=
  (Transformer.new greeterSettings .empty).addSpec greeterName greeterSpec

theorem greeterTransformer_spec : greeterTransformer.specs[greeterName]? = some greeterSpec :=
  Std.HashMap.getElem?_insert_self

theorem greeterWith_parsed {fields : List Member} (fit : Member.ListFits fields) :
    ClassFile.parse (greeterWith fields).encode = .ok (greeterWith fields) := by
  obtain ⟨fits, readable⟩ := ClassFile.parse_fits greeter_parsed
  exact (ClassFile.parse_encode_iff (readable.withFields fields)).mpr (fits.withFields fit)

/-- The class is hooked unless one of its fields has the name of a hook's field. -/
theorem greeterWith_transformed {fields : List Member} (fit : Member.ListFits fields)
    (others : ∀ field ∈ fields, ∃ name, field.name greeter.constants = .ok name ∧
      name ≠ greeterFields.classField.name.text) :
    greeterTransformer.transform (greeterWith fields).encode = .ok (.woven greeterName
      { greeterHooked with fields := fields ++ greeterHooked.fields }.encode) := by
  have parsed := greeterWith_parsed fit
  obtain ⟨rest, fileRead, -⟩ := ClassFile.parse_ok.mp parsed
  have named : (greeterWith fields).name = .ok greeterName := by
    change greeter.name = _
    decide +kernel
  have peeked := (ClassFile.peekName_eq fileRead).trans named
  have hookFields : HookFields.of greeterName greeterSpec.interface = .ok greeterFields := by
    decide +kernel
  refine Outcome.bind_ok.mpr ⟨greeterName, Outcome.mapError_ok.mpr peeked, ?_⟩
  rw [greeterTransformer_spec]
  refine Outcome.bind_ok.mpr ⟨_, Outcome.mapError_ok.mpr parsed, ?_⟩
  refine Outcome.bind_ok.mpr ⟨_, Outcome.mapError_ok.mpr hookFields, ?_⟩
  refine Outcome.bind_ok.mpr
    ⟨false, Outcome.mapError_ok.mpr (HookFields.isNamedIn_eq_false.mpr others), ?_⟩
  exact Outcome.bind_ok.mpr ⟨_, greeter_hookedWith fields _, rfl⟩

theorem greeter_readBack :
    greeterTransformer.transform greeter.encode = .ok (.woven greeterName greeterHooked.encode) ∧
    ClassFile.parse greeterHooked.encode = .ok greeterHooked := by
  have transformed : greeterTransformer.transform greeter.encode
      = .ok (.woven greeterName greeterHooked.encode) :=
    greeterWith_transformed ⟨by decide, nofun⟩ nofun
  refine ⟨transformed, ?_⟩
  obtain ⟨file, spec, hooked, parsed, hasSpec, weaves, -, readBack, -⟩ :=
    Transformer.transform_readBack_iff transformed
  rw [greeter_parsed] at parsed
  cases parsed
  rw [greeterTransformer_spec] at hasSpec
  cases hasSpec
  have hookedAgain : greeter.withHooks greeterSpec greeterTransformer.settings
      greeterTransformer.classPath.hierarchy = .ok greeterHooked := greeter_hookedWith [] _
  rw [hookedAgain] at weaves
  cases weaves
  refine readBack.mpr ⟨by decide, by decide, (ClassFile.parse_fits greeter_parsed).1.constants, ?_⟩
  intro method member attr among
  rcases List.mem_pair.mp member with rfl | rfl <;> rw [List.mem_singleton.mp among] <;>
    exact Nat.lt_of_lt_of_le (by decide : _ < 256) (by decide)

/-- As many fields as can be counted, but for one. The first of them has attributes without
content. -/
def crowdedFields : List Member :=
  ⟨0, 1, 21, ⟨120, []⟩ :: .replicate 7 ⟨5, []⟩⟩ :: .replicate 65533 ⟨0x1A, 24, 21, []⟩

theorem length_crowdedFields : crowdedFields.length = 65534 := by
  rw [crowdedFields, List.length_cons, List.length_replicate]

def crowdedHooked : ClassFile :=
  { greeterHooked with fields := crowdedFields ++ greeterHooked.fields }

/-- Nothing is said about two fields that are too many, and the class is not read back. -/
theorem crowded_unreadable :
    greeterTransformer.transform (greeterWith crowdedFields).encode
      = .ok (.woven greeterName crowdedHooked.encode) ∧
    (greeterWith crowdedFields).withHooks greeterSpec greeterTransformer.settings
      greeterTransformer.classPath.hierarchy = .ok crowdedHooked ∧
    ClassFile.parse crowdedHooked.encode ≠ .ok crowdedHooked := by
  have fit : Member.ListFits crowdedFields := by
    refine ⟨length_crowdedFields ▸ by decide, ?_⟩
    intro field member
    rcases List.mem_cons.mp member with rfl | plain
    · exact ⟨by simp, by simp [Attribute.Fits]⟩
    · rw [List.eq_of_mem_replicate plain]
      exact ⟨by simp, nofun⟩
  have others : ∀ field ∈ crowdedFields, ∃ name, field.name greeter.constants = .ok name ∧
      name ≠ greeterFields.classField.name.text := by
    intro field member
    rcases List.mem_cons.mp member with rfl | plain
    · exact ⟨"app/Greeter", by decide +kernel, by decide⟩
    · rw [List.eq_of_mem_replicate plain]
      exact ⟨"run", by decide +kernel, by decide⟩
  refine ⟨greeterWith_transformed fit others, greeter_hookedWith crowdedFields _, ?_⟩
  intro readBack
  obtain ⟨fits, -⟩ := ClassFile.parse_fits readBack
  have count : (crowdedFields ++ greeterHooked.fields).length < 2 ^ 16 := fits.fields.count
  rw [List.length_append, length_crowdedFields] at count
  exact absurd count (by decide)

end ClassWeave
