import Std.Data.HashMap
import ClassWeave.ClassGraph.Basic
import ClassWeave.Hook.Weaving

/-!
# Transformers

A transformer holds the specs of any number of classes. It weaves hooks into the classes that it has
a spec for, and passes all others through unread.
-/

namespace ClassWeave

structure Transformer where
  specs : Std.HashMap BinaryName HookSpec
  settings : Settings
  classPath : ClassSource

/-- What becomes of the bytes of a class. -/
inductive Transformed where
  | passedThrough
  | woven (name : BinaryName) (bytes : Bytes)

namespace Transformer

def new (settings : Settings) (classPath : ClassSource) : Transformer :=
  ⟨∅, settings, classPath⟩

/-- Takes a spec in place of the one that the class had before. -/
def addSpec (transformer : Transformer) (name : BinaryName) (spec : HookSpec) : Transformer :=
  { transformer with specs := transformer.specs.insert name spec }

def isTarget (transformer : Transformer) (name : BinaryName) : Bool :=
  transformer.specs.contains name

/-- Hooks a class that has a spec, unless it has these hooks already. -/
def transform (transformer : Transformer) (bytes : Bytes) : Except HookFault Transformed := do
  let name ← (ClassFile.peekName bytes).mapError HookFault.classFile
  match transformer.specs[name]? with
  | none => return .passedThrough
  | some spec =>
    let file ← (ClassFile.parse bytes).mapError HookFault.classFile
    let fields ← (HookFields.of name spec.interface).mapError HookFault.invalidSpec
    if ← (fields.isDeclaredBy file).mapError HookFault.classFile then return .passedThrough
    else
      let hooked ← file.withHooks spec transformer.settings transformer.classPath.hierarchy
      return .woven name hooked.encode

end Transformer

end ClassWeave
