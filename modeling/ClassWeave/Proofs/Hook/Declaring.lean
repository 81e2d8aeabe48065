import ClassWeave.Proofs.Hook.Reapplying

/-!
# Fields that are declared twice

No two fields of a class may have both the same name and the same type. Hooking declares two more
fields, and only the first of them is looked for before. So a class has a field twice afterwards
exactly if it has one like the second of them already.
-/

namespace ClassWeave

/-- What tells a field from all others of its class. -/
structure FieldKey where
  name : String
  type : String
  deriving DecidableEq

def FieldRef.key (field : FieldRef) : FieldKey := ⟨field.name.text, field.type.render⟩

namespace Member

variable {table newer : ConstantTable} {field : Member} {key other : FieldKey}

/-- The field has this name and this type. -/
structure Keyed (table : ConstantTable) (key : FieldKey) (field : Member) : Prop where
  name : field.name table = .ok key.name
  type : table.utf8 field.descriptorIndex = .ok key.type

theorem Keyed.unique (keyed : field.Keyed table key) (again : field.Keyed table other) :
    other = key := by
  obtain ⟨name, type⟩ := other
  have sameName : key.name = name := Except.ok.inj (keyed.name.symm.trans again.name)
  have sameType : key.type = type := Except.ok.inj (keyed.type.symm.trans again.type)
  subst sameName sameType
  rfl

theorem Keyed.grow (grown : newer.Extends table) (keyed : field.Keyed table key) :
    field.Keyed newer key :=
  ⟨ConstantTable.Stable.utf8 _ grown keyed.name, ConstantTable.Stable.utf8 _ grown keyed.type⟩

/-- More constants give no second key to a field that has one. -/
theorem keyed_grown_iff (grown : newer.Extends table) (keyed : field.Keyed table key) :
    field.Keyed newer other ↔ field.Keyed table other := by
  constructor
  · intro again
    rw [(keyed.grow grown).unique again]
    exact keyed
  · exact Keyed.grow grown

/-- No two of the fields have the same name and the same type. -/
def Distinct (table : ConstantTable) (fields : List Member) : Prop :=
  fields.Pairwise fun one other => ∀ key, one.Keyed table key → ¬ other.Keyed table key

theorem distinct_grown_iff {fields : List Member} (grown : newer.Extends table)
    (keyed : ∀ field ∈ fields, ∃ key, field.Keyed table key) :
    Distinct newer fields ↔ Distinct table fields := by
  refine List.Pairwise.iff_of_mem ?_
  intro one other first second
  obtain ⟨_, oneKeyed⟩ := keyed one first
  obtain ⟨_, otherKeyed⟩ := keyed other second
  refine forall_congr' fun key => ?_
  rw [keyed_grown_iff grown oneKeyed, keyed_grown_iff grown otherKeyed]

end Member

namespace HookFields

variable {table : ConstantTable} {fields : HookFields} {name : BinaryName}
  {interface : InterfaceMethod} {file : ClassFile}

theorem Declares.keyed {ref : FieldRef} {field : Member} (declares : Declares table ref field) :
    field.Keyed table ref.key :=
  ⟨declares.name, declares.type⟩

/-- One is for a class and one for a method. -/
theorem keys_ne (named : HookFields.of name interface = .ok fields) :
    fields.classField.key ≠ fields.methodField.key := by
  intro same
  have sameType := congrArg FieldKey.type same
  obtain ⟨_, -, named⟩ := Outcome.bind_ok.mp named
  obtain ⟨_, -, named⟩ := Outcome.bind_ok.mp named
  cases named
  have differ : (FieldType.object .classObject).render ≠
      (FieldType.object .reflectMethod).render := by decide
  exact differ sameType

/-- The first field is never declared twice, as it is looked for. -/
theorem classField_fresh {newer : ConstantTable} (grown : newer.Extends file.constants)
    (undeclared : fields.isDeclaredBy file = .ok false) {field : Member}
    (member : field ∈ file.fields) : ¬ field.Keyed newer fields.classField.key := by
  intro keyed
  obtain ⟨name, named, different⟩ := isNamedIn_eq_false.mp undeclared field member
  have kept := ConstantTable.Stable.utf8 _ grown named
  exact different (Except.ok.inj (kept.symm.trans keyed.name))

/-- Two declarations behind other fields leave all of them distinct unless one of the others has the
key of one of the two. -/
theorem distinct_append_iff (named : HookFields.of name interface = .ok fields)
    {members : List Member} {first second : Member}
    (firstDeclared : Declares table fields.classField first)
    (secondDeclared : Declares table fields.methodField second)
    (fresh : ∀ field ∈ members, ¬ field.Keyed table fields.classField.key) :
    Member.Distinct table (members ++ [first, second]) ↔ Member.Distinct table members ∧
      ∀ field ∈ members, ¬ field.Keyed table fields.methodField.key := by
  have twoDiffer : Member.Distinct table [first, second] := by
    refine List.pairwise_pair.mpr fun key isFirst isSecond => keys_ne named ?_
    exact (isFirst.unique firstDeclared.keyed).trans (isSecond.unique secondDeclared.keyed).symm
  rw [Member.Distinct, List.pairwise_append]
  constructor
  · rintro ⟨others, -, apart⟩
    exact ⟨others, fun field member keyed =>
      apart field member second (by simp) _ keyed secondDeclared.keyed⟩
  · rintro ⟨others, absent⟩
    refine ⟨others, twoDiffer, fun field member added isAdded key keyed addedKeyed => ?_⟩
    rcases List.mem_pair.mp isAdded with rfl | rfl
    · rw [firstDeclared.keyed.unique addedKeyed] at keyed
      exact fresh field member keyed
    · rw [secondDeclared.keyed.unique addedKeyed] at keyed
      exact absent field member keyed

end HookFields

/-- A class that is hooked has no field twice exactly if it had none before and its fields were not
like the second field of the hook. Whatever the first one is, it is never declared twice. If a name or
a type was missing from the constants it is looked for among the new ones. -/
theorem Transformer.transform_distinct_iff {transformer : Transformer} {bytes output : Bytes}
    {name : BinaryName} (done : transformer.transform bytes = .ok (.woven name output)) :
    ∃ file spec fields hooked, ClassFile.parse bytes = .ok file ∧
      transformer.specs[name]? = some spec ∧ HookFields.of name spec.interface = .ok fields ∧
      file.withHooks spec transformer.settings transformer.classPath.hierarchy = .ok hooked ∧
      hooked.encode = output ∧ (hooked.Fits → ClassFile.parse output = .ok hooked) ∧
      (Member.Distinct hooked.constants hooked.fields ↔
        Member.Distinct hooked.constants file.fields ∧
        ∀ field ∈ file.fields, ¬ field.Keyed hooked.constants fields.methodField.key) ∧
      ((∀ field ∈ file.fields, ∃ key, field.Keyed file.constants key) →
        Member.Distinct file.constants file.fields →
          (Member.Distinct hooked.constants hooked.fields ↔
            ∀ field ∈ file.fields, ¬ field.Keyed file.constants fields.methodField.key)) := by
  obtain ⟨hooked, @⟨spec, file, fields, peeked, hasSpec, parsed, fieldNames, undeclared, weaves⟩,
    rfl⟩ := transform_rewrites done
  obtain ⟨found, weaving, rfl, hookedClass⟩ :=
    ClassFile.withHooks_hookedClass (ClassFile.parse_size parsed) weaves
  have named : file.name = .ok name := (ClassFile.peekName_of_parsed parsed).symm.trans peeked
  cases named.symm.trans hookedClass.name
  cases fieldNames.symm.trans hookedClass.fieldNames
  obtain ⟨first, second, added, firstDeclared, secondDeclared⟩ := hookedClass.fields
  have grown := hookedClass.constants
  have distinct : Member.Distinct hooked.constants hooked.fields ↔
      Member.Distinct hooked.constants file.fields ∧
      ∀ field ∈ file.fields, ¬ field.Keyed hooked.constants fields.methodField.key := by
    rw [added]
    exact HookFields.distinct_append_iff fieldNames firstDeclared secondDeclared
      fun field => HookFields.classField_fresh grown undeclared
  refine ⟨file, _, fields, hooked, parsed, hasSpec, fieldNames, weaves, rfl,
    (ClassFile.parse_encode_iff (ClassFile.withHooks_readable parsed weaves)).mpr, distinct, ?_⟩
  intro keyed distinctBefore
  have distinctAfter := (Member.distinct_grown_iff grown keyed).mpr distinctBefore
  rw [distinct, and_iff_right distinctAfter]
  refine forall₂_congr fun field member => ?_
  obtain ⟨_, hasKey⟩ := keyed field member
  rw [Member.keyed_grown_iff grown hasKey]

def runField : Member := ⟨0x1A, 24, 21, []⟩

/-- The second field of the hook, declared by the class itself. -/
def twinField : Member := ⟨0x1A, 32, 33, []⟩

theorem twinField_keyed :
    twinField.Keyed greeter.constants ⟨"CHOOK_RUN", "Ljava/lang/reflect/Method;"⟩ :=
  ⟨by decide +kernel, by decide +kernel⟩

theorem runField_keyed : runField.Keyed greeter.constants ⟨"run", "Ljava/lang/Class;"⟩ :=
  ⟨by decide +kernel, by decide +kernel⟩

def greeterHookedWith (field : Member) : ClassFile :=
  { greeterHooked with fields := field :: greeterHooked.fields }

theorem greeterWith_one {field : Member} {key : FieldKey} (bare : field.attributes = [])
    (keyed : field.Keyed greeter.constants key) (different : key.name ≠ "CHOOK") :
    ClassFile.parse (greeterWith [field]).encode = .ok (greeterWith [field]) ∧
    greeterTransformer.transform (greeterWith [field]).encode
      = .ok (.woven greeterName (greeterHookedWith field).encode) := by
  have fit : Member.ListFits [field] := by
    refine ⟨Nat.one_lt_two_pow (by decide), fun other member => ?_⟩
    rw [List.mem_singleton.mp member]
    exact ⟨by simp [bare], by simp [bare]⟩
  refine ⟨greeterWith_parsed fit, greeterWith_transformed fit fun other member => ?_⟩
  rw [List.mem_singleton.mp member]
  exact ⟨key.name, keyed.name, different⟩

theorem runField_distinct :
    ClassFile.parse (greeterWith [runField]).encode = .ok (greeterWith [runField]) ∧
    greeterTransformer.transform (greeterWith [runField]).encode
      = .ok (.woven greeterName (greeterHookedWith runField).encode) ∧
    Member.Distinct greeter.constants [runField] ∧
    Member.Distinct greeter.constants (greeterHookedWith runField).fields := by
  obtain ⟨parsed, transformed⟩ := greeterWith_one rfl runField_keyed (by decide)
  have single : Member.Distinct greeter.constants [runField] := List.pairwise_singleton _ _
  refine ⟨parsed, transformed, single, ?_⟩
  obtain ⟨file, spec, fields, hooked, parsedAgain, hasSpec, named, weaves, -, -, -, distinct⟩ :=
    Transformer.transform_distinct_iff transformed
  cases parsed.symm.trans parsedAgain
  cases hasSpec.symm.trans greeterTransformer_spec
  have hookFields : HookFields.of greeterName greeterSpec.interface = .ok greeterFields := by
    decide +kernel
  cases hookFields.symm.trans named
  cases (greeter_hookedWith [runField] _).symm.trans weaves
  refine (distinct (fun field member => ?_) single).mpr fun field member keyed => ?_
  · rw [List.mem_singleton.mp member]
    exact ⟨_, runField_keyed⟩
  · rw [List.mem_singleton.mp member] at keyed
    exact absurd (runField_keyed.unique keyed) (by decide)

/-- The second field of the hook is not looked for: it is declared twice. -/
theorem twinField_declaredTwice :
    HookSpec.ofParts greeterSpec.interface [greeterTarget] = .ok greeterSpec ∧
    ClassFile.parse (greeterWith [twinField]).encode = .ok (greeterWith [twinField]) ∧
    Member.Distinct (greeterWith [twinField]).constants (greeterWith [twinField]).fields ∧
    greeterTransformer.transform (greeterWith [twinField]).encode
      = .ok (.woven greeterName (greeterHookedWith twinField).encode) ∧
    ClassFile.parse (greeterHookedWith twinField).encode = .ok (greeterHookedWith twinField) ∧
    ¬ Member.Distinct (greeterHookedWith twinField).constants
      (greeterHookedWith twinField).fields := by
  obtain ⟨parsed, transformed⟩ := greeterWith_one rfl twinField_keyed (by decide)
  have weaves := greeter_hookedWith [twinField] .flat
  have readable := ClassFile.withHooks_readable parsed weaves
  have fit : Member.ListFits (greeterHookedWith twinField).fields := by
    refine ⟨by decide, fun field member => ?_⟩
    rcases List.mem_cons.mp member with rfl | member
    · exact ⟨by decide, nofun⟩
    · exact greeterHooked_fits.fields.each field member
  refine ⟨by decide +kernel, parsed, List.pairwise_singleton _ _, transformed,
    (ClassFile.parse_encode_iff readable).mpr (greeterHooked_fits.withFields fit), ?_⟩
  intro distinct
  have twin : twinField ∈ greeterHooked.fields := by decide
  exact (List.pairwise_cons.mp distinct).1 twinField twin _ twinField_keyed twinField_keyed

end ClassWeave
