import ClassWeave.ClassFile.Basic
import ClassWeave.Hook.Spec
import ClassWeave.Text.Uppercase

/-!
# The fields of a hook

A hooked class gets two static fields: one for the class object of the interface, and one for its
method. Both are named for the interface.
-/

namespace ClassWeave

structure HookFields where
  classField : FieldRef
  methodField : FieldRef
  deriving DecidableEq, Repr

namespace HookFields

/-- The name of the first field: the interface's in capitals, after a `C`. -/
def className (interface : InterfaceMethod) : String :=
  "C" ++ (Text.upper interface.owner.toDotted).map fun c => if c == '.' then '_' else c

def methodName (interface : InterfaceMethod) : String :=
  className interface ++ "_" ++ Text.upper interface.name.text

/-- The fields that the hooks of a class use. -/
def of (thisClass : BinaryName) (interface : InterfaceMethod) : Except SpecFault HookFields := do
  let className ← SpecFault.checkName (UnqualifiedName.ofString (className interface))
  let methodName ← SpecFault.checkName (UnqualifiedName.ofString (methodName interface))
  return ⟨⟨thisClass, className, .object .classObject⟩,
    ⟨thisClass, methodName, .object .reflectMethod⟩⟩

/-- Does a class have a field named like the first of these among `members`? -/
def isNamedIn (fields : HookFields) (table : ConstantTable) : List Member → Except Fault Bool
  | [] => .ok false
  | member :: rest => do
    if (← member.name table) = fields.classField.name.text then return true
    else fields.isNamedIn table rest

/-- Has the class been hooked for this interface before? -/
def isDeclaredBy (fields : HookFields) (file : ClassFile) : Except Fault Bool :=
  fields.isNamedIn file.constants file.fields

def declaration (field : FieldRef) : PoolM Member := do
  let name ← PoolM.utf8 field.name.text
  let descriptor ← PoolM.utf8 field.type.render
  return ⟨Access.isPrivate ||| Access.isStatic ||| Access.isFinal, name, descriptor, []⟩

/-- The declarations of both fields. -/
def declarations (fields : HookFields) : PoolM (List Member) :=
  [fields.classField, fields.methodField].mapM declaration

end HookFields

end ClassWeave
