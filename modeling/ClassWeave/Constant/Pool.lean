import Std.Data.HashMap
import ClassWeave.Constant.Table
import ClassWeave.Descriptor.Printer

/-!
# Building constant pools

A pool only grows, so a constant keeps its slot for good. A constant that is asked for again is
found again, in the first slot that holds it.
-/

namespace ClassWeave

/-- A table with the first slot of each constant in it. -/
structure Pool where
  table : ConstantTable
  firstSlot : Std.HashMap Constant ConstantIndex

/-- Computations that look up and add constants. What was added before a fault stays. -/
abbrev PoolM (α : Type) := ExceptT Fault (StateM Pool) α

namespace Pool

/-- The largest number of slots that a pool may have, slot 0 included. -/
def maxSlots : Nat := 65535

def empty : Pool := ⟨.empty, ∅⟩

/-- Starts from the constants of a class file. Slots are counted in 16 bits. -/
def ofTable (table : ConstantTable) : Pool :=
  ⟨table, table.entries.foldl
    (fun seen (slot, constant) => seen.insertIfNew constant (UInt16.ofNat slot)) ∅⟩

/-- Finds a constant, or adds it if there is room. -/
def intern (pool : Pool) (constant : Constant) : Except Fault ConstantIndex × Pool :=
  match pool.firstSlot[constant]? with
  | some index => (.ok index, pool)
  | none =>
    let slot := pool.table.size
    if slot + constant.width > maxSlots then (.error (.poolOverflow slot), pool)
    else
      let index := UInt16.ofNat slot
      (.ok index, ⟨pool.table.push constant, pool.firstSlot.insert constant index⟩)

end Pool

namespace PoolM

def intern (constant : Constant) : PoolM ConstantIndex := fun pool => pool.intern constant

/-- Looks something up in the constants so far. -/
def lookup {α : Type} (query : ConstantTable → Except Fault α) : PoolM α :=
  fun pool => (query pool.table, pool)

def utf8 (text : String) : PoolM ConstantIndex := intern (.utf8 text)

/-- The constant of a class under the name that class files store. -/
def className (name : String) : PoolM ConstantIndex := do
  let text ← utf8 name
  intern (.classRef text)

def classType (type : RefType) : PoolM ConstantIndex := className type.className

def binaryName (name : BinaryName) : PoolM ConstantIndex := className name.text

/-- The constant that joins a member's name and descriptor. -/
def nameAndType (name : UnqualifiedName) (descriptor : String) : PoolM ConstantIndex := do
  let name ← utf8 name.text
  let descriptor ← utf8 descriptor
  intern (.nameAndType name descriptor)

/-- Runs on a pool, keeping the pool only if nothing went wrong. -/
def runOn {α : Type} (action : PoolM α) (pool : Pool) : Except Fault (α × Pool) :=
  match action pool with
  | (.ok value, pool) => .ok (value, pool)
  | (.error fault, _) => .error fault

end PoolM

end ClassWeave
