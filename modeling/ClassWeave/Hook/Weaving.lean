import ClassWeave.ClassGraph.Edited
import ClassWeave.Code.Assembly
import ClassWeave.Code.Disassembly
import ClassWeave.Hook.Initializer
import ClassWeave.Hook.Trigger

/-!
# Weaving hooks into classes

Adds the fields of a hook to a class, fills them in by its static initializer, and puts hooks into
all target methods in which a trigger occurs. Everything else stays as it is.
-/

namespace ClassWeave

/-- How hooks are woven in. -/
structure Settings where
  loaderSource : LoaderSource
  /-- The flags of a static initializer that has to be created. -/
  initializerFlags : UInt16
  /-- Are stack maps written even for classes whose version does without? -/
  stackMapsAlways : Bool

def Settings.default : Settings := ⟨.defining, Access.isPublic ||| Access.isStatic, false⟩

/-- Weaving, which adds constants and may fail. -/
abbrev WeaveM (α : Type) := ExceptT HookFault (StateM Pool) α

instance : MonadLift PoolM WeaveM :=
  ⟨fun action => fun pool =>
    match action pool with
    | (.ok value, pool) => (.ok value, pool)
    | (.error fault, pool) => (.error (.classFile fault), pool)⟩

/-- What weaving the methods of one class depends on. -/
structure Weaving where
  thisClass : BinaryName
  spec : HookSpec
  call : HookCall
  setup : List Item
  hierarchy : Hierarchy
  emitStackMaps : Bool

namespace Weaving

/-- What to do with a method. -/
inductive MethodEdit where
  | keep
  | hook (target : Target)
  | setUp
  deriving DecidableEq, Repr

/-- A target is hooked even if it is the static initializer. -/
def editFor (weaving : Weaving) (name : String) (descriptor : MethodDescriptor) : MethodEdit :=
  match weaving.spec.target? name descriptor with
  | some target => .hook target
  | none => if name = UnqualifiedName.clinit.text then .setUp else .keep

/-- The code that a body becomes. -/
def assemble (weaving : Weaving) (name : UnqualifiedName) (descriptor : MethodDescriptor)
    (isStatic : Bool) (body : Body) : PoolM CodeAttribute :=
  body.assemble ⟨⟨weaving.thisClass, name, descriptor, isStatic⟩, weaving.hierarchy,
    weaving.emitStackMaps⟩

/-- The body of an edited method with its name, if the edit changes it. -/
def editedBody (weaving : Weaving) (edit : MethodEdit) (body : Body) :
    Except HookFault (Option (UnqualifiedName × Body)) :=
  match edit with
  | .keep => .ok none
  | .hook target => do
    target.checkTypes weaving.spec.interface weaving.hierarchy
    let plan : HookPlan := ⟨weaving.call, target⟩
    return (plan.hooked? body).map fun body => (target.name, body)
  | .setUp => .ok (some (.clinit, Initializer.prepend weaving.setup body))

/-- A method after its edit. Its new code takes the place of the old among the attributes. -/
def editMethod (weaving : Weaving) (edit : MethodEdit) (method : Member)
    (descriptor : MethodDescriptor) (position : Nat) (code : Attribute) : WeaveM Member := do
  let code ← liftM (m := PoolM) code.decodeCode
  let body ← liftM (PoolM.lookup fun table => Body.ofCode code table)
  match ← weaving.editedBody edit body with
  | none => return method
  | some (name, body) =>
    let code ← liftM (weaving.assemble name descriptor method.isStatic body)
    let attr ← liftM (PoolM.attributeOf .code code.encode)
    return { method with attributes := method.attributes.set position attr }

/-- A method after its edit, and whether it is an initializer that runs the setup now. A method
without code stays as it is. -/
def weaveMethod (weaving : Weaving) (method : Member) : WeaveM (Member × Bool) := do
  let name ← liftM (PoolM.lookup method.name)
  let descriptor ← liftM (PoolM.lookup method.descriptor)
  match weaving.editFor name descriptor with
  | .keep => return (method, false)
  | edit =>
    match ← liftM (PoolM.lookup method.codePosition?) with
    | none => return (method, false)
    | some position =>
      match method.attributes[position]? with
      | none => return (method, false)
      | some code =>
        let edited ← weaving.editMethod edit method descriptor position code
        return (edited, edit = .setUp)

/-- A static initializer that runs the setup. -/
def newInitializer (weaving : Weaving) (flags : UInt16) : PoolM Member := do
  let code ← weaving.assemble .clinit ⟨[], none⟩ true (Initializer.ofSetup weaving.setup)
  let name ← PoolM.utf8 UnqualifiedName.clinit.text
  let descriptor ← PoolM.utf8 "()V"
  let attr ← PoolM.attributeOf .code code.encode
  return ⟨flags, name, descriptor, [attr]⟩

/-- The methods of the class after the weaving. -/
def methods (weaving : Weaving) (flags : UInt16) (before : List Member) :
    WeaveM (List Member) := do
  let woven ← before.mapM weaving.weaveMethod
  let after := woven.map Prod.fst
  if woven.any Prod.snd then return after
  else return after ++ [← liftM (weaving.newInitializer flags)]

end Weaving

namespace ClassFile

/-- What keeps a class from taking any hook of this kind. -/
def limit? (file : ClassFile) (name : BinaryName) (interface : InterfaceMethod)
    (source : LoaderSource) : Option ClassLimit :=
  if file.isInterface then some (.isInterface name)
  else if !file.version.supportsClassConstants
      && Initializer.loadsClassConstants interface source then
    some (.noClassConstants name file.version.major file.version.minor)
  else none

/-- The class with its hooks. -/
def withHooks (file : ClassFile) (spec : HookSpec) (settings : Settings) (hierarchy : Hierarchy) :
    Except HookFault ClassFile := do
  let thisClass ← file.name.mapError HookFault.classFile
  if let some limit := file.limit? thisClass spec.interface settings.loaderSource then
    throw (.unsupportedTarget limit)
  let fields ← (HookFields.of thisClass spec.interface).mapError HookFault.invalidSpec
  let superclass ← file.superName.mapError HookFault.classFile
  let weaving : Weaving :=
    { thisClass, spec
      call := .of fields spec.interface
      setup := Initializer.setup thisClass spec.interface fields settings.loaderSource
      hierarchy := EditedClass.hierarchy ⟨thisClass, superclass⟩ hierarchy
      emitStackMaps := file.version.supportsStackMaps || settings.stackMapsAlways }
  let weave : WeaveM (List Member × List Member) := do
    let methods ← weaving.methods settings.initializerFlags file.methods
    return (methods, ← liftM fields.declarations)
  match weave (.ofTable file.constants) with
  | (.error fault, _) => throw fault
  | (.ok (methods, declarations), pool) =>
    return { file with
      constants := pool.table, methods, fields := file.fields ++ declarations }

end ClassFile

end ClassWeave
