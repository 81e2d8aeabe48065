import ClassWeave.Proofs.Hook.ReadBack

/-!
# Hooking again

A hooked class declares the fields of its hook, and is known by them. So hooking what has been hooked
changes nothing, as long as the image of the hooked class can be read.
-/

namespace ClassWeave

/-- What is there in place of the bytes that were transformed. -/
def Transformed.image (bytes : Bytes) : Transformed → Bytes
  | passedThrough => bytes
  | woven _ output => output

namespace Transformer

variable {transformer : Transformer} {bytes output : Bytes} {name : BinaryName}

/-- A class is left alone without a spec, whatever comes after its name. -/
theorem transform_of_peeked (peeked : ClassFile.peekName bytes = .ok name)
    (noTarget : transformer.isTarget name = false) :
    transformer.transform bytes = .ok .passedThrough := by
  have noSpec : transformer.specs[name]? = none := by
    simpa [isTarget] using noTarget
  refine Outcome.bind_ok.mpr ⟨name, Outcome.mapError_ok.mpr peeked, ?_⟩
  rw [noSpec]
  rfl

/-- A class is left alone if it declares the fields of its hook. -/
theorem transform_of_declared {spec : HookSpec} {file : ClassFile} {fields : HookFields}
    (peeked : ClassFile.peekName bytes = .ok name) (hasSpec : transformer.specs[name]? = some spec)
    (parsed : ClassFile.parse bytes = .ok file)
    (fieldNames : HookFields.of name spec.interface = .ok fields)
    (declared : fields.isDeclaredBy file = .ok true) :
    transformer.transform bytes = .ok .passedThrough := by
  refine Outcome.bind_ok.mpr ⟨name, Outcome.mapError_ok.mpr peeked, ?_⟩
  rw [hasSpec]
  refine Outcome.bind_ok.mpr ⟨file, Outcome.mapError_ok.mpr parsed, ?_⟩
  refine Outcome.bind_ok.mpr ⟨fields, Outcome.mapError_ok.mpr fieldNames, ?_⟩
  exact Outcome.bind_ok.mpr ⟨true, Outcome.mapError_ok.mpr declared, rfl⟩

end Transformer

namespace HookFields

variable {fields : HookFields} {table newer : ConstantTable} {members : List Member}

/-- A field that comes after others with names of their own is found. -/
theorem isNamedIn_append (undeclared : fields.isNamedIn table members = .ok false)
    (grown : newer.Extends table) {declaration : Member} {rest : List Member}
    (named : declaration.name newer = .ok fields.classField.name.text) :
    fields.isNamedIn newer (members ++ declaration :: rest) = .ok true := by
  induction members with
  | nil =>
    refine Outcome.bind_ok.mpr ⟨_, named, ?_⟩
    rw [if_pos rfl]
    rfl
  | cons member members ih =>
    obtain ⟨name, nameFound, undeclared⟩ := Outcome.bind_ok.mp undeclared
    refine Outcome.bind_ok.mpr ⟨name, ConstantTable.Stable.utf8 _ grown nameFound, ?_⟩
    split at undeclared
    · cases undeclared
    · rename_i different
      rw [if_neg different]
      exact ih undeclared

end HookFields

namespace ClassFile

variable {bytes : Bytes} {file hooked : ClassFile} {spec : HookSpec} {settings : Settings}
  {hierarchy : Hierarchy}

theorem peekName_of_parsed (parsed : parse bytes = .ok file) : peekName bytes = file.name := by
  obtain ⟨rest, fileRead, -⟩ := parse_ok.mp parsed
  exact peekName_eq fileRead

/-- A hooked class keeps its name. -/
theorem withHooks_name (parsed : parse bytes = .ok file)
    (done : file.withHooks spec settings hierarchy = .ok hooked) : hooked.name = file.name := by
  obtain ⟨fields, weaving, -, hookedClass⟩ := withHooks_hookedClass (parse_size parsed) done
  have named := hookedClass.name
  have kept := hookedClass.kept
  rw [named, kept]
  exact ConstantTable.Stable.binaryName _ hookedClass.constants named

/-- A hooked class declares the fields of its hook. -/
theorem withHooks_declares {name : BinaryName} {fields : HookFields}
    (parsed : parse bytes = .ok file) (named : file.name = .ok name)
    (fieldNames : HookFields.of name spec.interface = .ok fields)
    (undeclared : fields.isDeclaredBy file = .ok false)
    (done : file.withHooks spec settings hierarchy = .ok hooked) :
    fields.isDeclaredBy hooked = .ok true := by
  obtain ⟨found, weaving, rfl, hookedClass⟩ := withHooks_hookedClass (parse_size parsed) done
  obtain ⟨first, second, added, declares, -⟩ := hookedClass.fields
  cases named.symm.trans hookedClass.name
  cases fieldNames.symm.trans hookedClass.fieldNames
  rw [HookFields.isDeclaredBy, added]
  exact HookFields.isNamedIn_append undeclared hookedClass.constants declares.name

end ClassFile

namespace Transformer

variable {transformer : Transformer} {bytes : Bytes} {name : BinaryName} {hooked : ClassFile}

/-- The image of a rewritten class is left alone if it fits. -/
theorem Rewrites.transform_encode (rewrites : transformer.Rewrites bytes name hooked)
    (fits : hooked.Fits) : transformer.transform hooked.encode = .ok .passedThrough := by
  obtain @⟨spec, file, fields, peeked, hasSpec, parsed, fieldNames, undeclared, weaves⟩ := rewrites
  have readBack : ClassFile.parse hooked.encode = .ok hooked :=
    (ClassFile.parse_encode_iff (ClassFile.withHooks_readable parsed weaves)).mpr fits
  have named : file.name = .ok name := (ClassFile.peekName_of_parsed parsed).symm.trans peeked
  have peekedAgain : ClassFile.peekName hooked.encode = .ok name :=
    ((ClassFile.peekName_of_parsed readBack).trans (ClassFile.withHooks_name parsed weaves)).trans
      named
  exact transform_of_declared peekedAgain hasSpec readBack fieldNames
    (ClassFile.withHooks_declares parsed named fieldNames undeclared weaves)

/-- A class without a spec is left alone, whatever comes after its name. And what comes out of the
transformer is left alone when it goes in again, if everything in the rewritten class can be counted
in the bits that it has. -/
theorem transform_idempotent (transformer : Transformer) (bytes : Bytes) :
    (∀ name, ClassFile.peekName bytes = .ok name → transformer.isTarget name = false →
      transformer.transform bytes = .ok .passedThrough) ∧
    ∀ result, transformer.transform bytes = .ok result →
      (∀ name hooked, transformer.Rewrites bytes name hooked → hooked.Fits) →
        transformer.transform (result.image bytes) = .ok .passedThrough := by
  refine ⟨fun name => transform_of_peeked, fun result done fits => ?_⟩
  cases result with
  | passedThrough => exact done
  | woven name output =>
    obtain ⟨hooked, rewrites, rfl⟩ := transform_rewrites done
    exact rewrites.transform_encode (fits name hooked rewrites)

end Transformer

theorem greeterHooked_fits : greeterHooked.Fits := by
  refine (ClassFile.withHooks_fits_iff greeter_parsed greeter_hooked).mpr
    ⟨by decide, by decide, (ClassFile.parse_fits greeter_parsed).1.constants, ?_⟩
  intro method member attr among
  rcases List.mem_pair.mp member with rfl | rfl <;> rw [List.mem_singleton.mp among] <;>
    exact Nat.lt_of_lt_of_le (by decide : _ < 256) (by decide)

def oddName : BinaryName := ⟨"A", by decide⟩

theorem odd_peeked : ClassFile.peekName oddBytes = .ok oddName := by
  rw [ClassFile.peekName_of_parsed odd_parsed]
  decide +kernel

theorem odd_noTarget : greeterTransformer.isTarget oddName = false := by
  simp [Transformer.isTarget, greeterTransformer, Transformer.addSpec, Transformer.new, greeterName,
    oddName]

theorem greeter_rewritten {name : BinaryName} {hooked : ClassFile}
    (rewrites : greeterTransformer.Rewrites greeter.encode name hooked) :
    hooked = greeterHooked := by
  obtain ⟨peeked, hasSpec, parsed, -, -, weaves⟩ := rewrites
  have named : greeter.name = .ok greeterName := by decide +kernel
  cases greeter_parsed.symm.trans parsed
  cases (peeked.symm.trans (ClassFile.peekName_of_parsed parsed)).trans named
  cases hasSpec.symm.trans greeterTransformer_spec
  exact Except.ok.inj (weaves.symm.trans (greeter_hookedWith [] _))

/-- The class is hooked once, and a class that is no target not at all. -/
theorem greeter_hookedOnce :
    ClassFile.peekName oddBytes = .ok oddName ∧ greeterTransformer.isTarget oddName = false ∧
    greeterTransformer.transform oddBytes = .ok .passedThrough ∧
    greeterTransformer.transform greeter.encode = .ok (.woven greeterName greeterHooked.encode) ∧
    greeterHooked.Fits ∧
    greeterTransformer.transform greeterHooked.encode = .ok .passedThrough := by
  have transformed : greeterTransformer.transform greeter.encode
      = .ok (.woven greeterName greeterHooked.encode) :=
    greeterWith_transformed ⟨by decide, nofun⟩ nofun
  have again := (greeterTransformer.transform_idempotent greeter.encode).2 _ transformed
    fun name hooked rewrites => greeter_rewritten rewrites ▸ greeterHooked_fits
  rw [Transformed.image] at again
  exact ⟨odd_peeked, odd_noTarget,
    (greeterTransformer.transform_idempotent oddBytes).1 _ odd_peeked odd_noTarget, transformed,
    greeterHooked_fits, again⟩
end ClassWeave
