import ClassWeave.Proofs.Constant.Interning
import ClassWeave.Proofs.Constant.Known
import ClassWeave.Proofs.Constant.Operands

/-!
# Operands survive in the pool

An operand that is spelt out becomes up to four constants, each found or added on its own, among
constants that may be there several times. Whatever is asked of the pool before and after, the
operand is read back from the slot that it got, and gets this slot whenever it is asked for again.
-/

namespace ClassWeave

/-- The slot that an operand stays in, if only a class file can describe it. -/
def Symbolic.slot? : {kind : OperandKind} → Symbolic kind → Option ConstantIndex
  | .loadable, constant => Loadable.slot? constant
  | .callSite, site => some site.index
  | .classRef, _ | .field, _ | .method, _ => none

theorem Pool.Grown.intern_again {before later : Pool} {constant : Constant} {index : ConstantIndex}
    (met : (before.intern constant).1 = .ok index) (grown : (before.intern constant).2.Grown later) :
    later.intern constant = (.ok index, later) := by
  rw [Pool.intern, grown.noted (Pool.intern_noted met)]

namespace PoolM

variable {α : Type} {before after later : Pool}

/-- What has been put into a pool is found in every larger one, without adding anything. -/
theorem Interning.again {action : PoolM α} (interning : Interning action) {value : α}
    (done : Yields action before value after) (grown : after.Grown later) :
    Yields action later value later := by
  induction interning generalizing before after with
  | pure result =>
    obtain ⟨rfl, -⟩ := yields_pure.mp done
    exact yields_pure.mpr ⟨rfl, rfl⟩
  | intern constant =>
    have met : (before.intern constant).1 = .ok value := congrArg Prod.fst done
    have isAfter : (before.intern constant).2 = after := congrArg Prod.snd done
    exact (isAfter ▸ grown).intern_again met
  | bind _ rest first second =>
    obtain ⟨result, middle, found, done⟩ := yields_bind.mp done
    have grownThen := ((rest result).grows.yields done).trans grown
    exact yields_bind.mpr ⟨result, later, first found grownThen, second result done grown⟩

theorem symbolic_reads {kind : OperandKind} {operand : Symbolic kind} {index : ConstantIndex}
    (sound : before.Sound) (spelt : operand.slot? = none)
    (done : Yields (PoolM.operand kind operand) before index after) :
    after.table.operand kind index = .ok operand := by
  cases kind with
  | classRef => exact classType_reads _ sound done
  | loadable => exact spelt_reads sound spelt done
  | field => exact fieldRef_reads sound done
  | method => exact methodRef_reads sound done
  | callSite => cases spelt

end PoolM

namespace Pool

open PoolM (Yields)

/-- An operand that got a slot of a pool, whatever the pool started from and has been asked for
before, is read back from there at any later time. Asked for again, it gets the same slot, and the
pool stays as it is. -/
theorem symbolic_operand_survives {seed : ConstantTable} (bound : seed.size ≤ maxSlots)
    (earlier : List Constant) {kind : OperandKind} {operand : Symbolic kind}
    (spelt : operand.slot? = none) {index : ConstantIndex} {after : Pool}
    (done : Yields (PoolM.operand kind operand) ((ofTable seed).afterAll earlier) index after)
    (later : List Constant) :
    (after.afterAll later).table.operand kind index = .ok operand ∧
      Yields (PoolM.operand kind operand) (after.afterAll later) index (after.afterAll later) := by
  have sound := ((ofTable seed).afterAll_grown earlier).sound (ofTable_sound bound)
  have grown := after.afterAll_grown later
  have readAtOnce := PoolM.symbolic_reads sound spelt done
  exact ⟨ConstantTable.Stable.operand kind index grown.kept readAtOnce,
    (PoolM.interning_operand kind operand).again done grown⟩

/-- Constants with a text that is there twice, and a class for each of its slots. -/
def doubled : ConstantTable := .ofList [.utf8 "[I", .utf8 "[I", .classRef 2, .classRef 1,
  .utf8 "toString", .utf8 "()[I", .nameAndType 5 6]

def arrayMethod : MethodRef where
  owner := .array 0 (.base .int)
  name := .toStringName
  descriptor := ⟨[], some (.ref (.array 0 (.base .int)))⟩
  isInterface := true

/-- The method takes the class over the first slot of the name, and itself a new one. -/
private theorem arrayMethod_added : ∃ after,
    Yields (PoolM.operand .method arrayMethod) ((ofTable doubled).afterAll [.utf8 "[I"]) 8 after := by
  have asked : (ofTable doubled).afterAll [.utf8 "[I"] = ofTable doubled :=
    congrArg Prod.snd (PoolM.Finds.intern (show doubled.slotOf? (.utf8 "[I") = some 1 by
      decide +kernel))
  have owner : PoolM.Finds doubled (PoolM.classType arrayMethod.owner) 4 :=
    PoolM.Finds.className (by decide +kernel)
  have signature : PoolM.Finds doubled
      (PoolM.nameAndType arrayMethod.name arrayMethod.descriptor.render) 7 :=
    PoolM.Finds.nameAndType (by decide +kernel)
  have new : (ofTable doubled).firstSlot[Constant.methodRef 4 7 true]? = none := by
    rw [ofTable_firstSlot]
    decide +kernel
  obtain ⟨after, added, -⟩ := PoolM.yields_intern_new new (by decide)
  rw [asked]
  exact ⟨after, PoolM.yields_bind.mpr ⟨4, _, owner, PoolM.yields_bind.mpr ⟨7, _, signature, added⟩⟩⟩

theorem arrayMethod_survives : doubled.size ≤ maxSlots ∧
    @Symbolic.slot? .method arrayMethod = none ∧
    ∃ after, Yields (PoolM.operand .method arrayMethod)
        ((ofTable doubled).afterAll [.utf8 "[I"]) 8 after ∧
      (after.afterAll [.long 8, .methodRef 4 7 false]).table.operand .method 8 = .ok arrayMethod ∧
      Yields (PoolM.operand .method arrayMethod)
        (after.afterAll [.long 8, .methodRef 4 7 false]) 8
        (after.afterAll [.long 8, .methodRef 4 7 false]) := by
  obtain ⟨after, done⟩ := arrayMethod_added
  exact ⟨by decide, rfl, after, done,
    @symbolic_operand_survives doubled (by decide) [.utf8 "[I"] .method arrayMethod rfl 8 after done _⟩

end Pool

end ClassWeave
