import ClassWeave.Hook.Call

/-!
# Static initializers

The fields of a hook are filled in before anything else that the static initializer of the class
does.
-/

namespace ClassWeave

/-- Where the class loader that finds the interface comes from. -/
inductive LoaderSource where
  /-- The loader of the class that takes the hook. -/
  | defining
  /-- The one that the initializing thread has as its context. -/
  | context
  | system
  /-- That of a plugin of the platform, known by its id. -/
  | plugin (id : String)
  deriving DecidableEq, Repr

/-- A text that names no loader source. -/
structure UnknownLoader where
  text : String
  deriving DecidableEq, Repr

def UnknownLoader.message (unknown : UnknownLoader) : String :=
  "unknown loader '" ++ unknown.text
    ++ "' (expected defining, context, system, or plugin:<id>)"

namespace LoaderSource

def display : LoaderSource → String
  | defining => "defining"
  | context => "context"
  | system => "system"
  | plugin id => "plugin:" ++ id

def ofString (text : String) : Except UnknownLoader LoaderSource :=
  match text with
  | "defining" => .ok defining
  | "context" => .ok context
  | "system" => .ok system
  | _ =>
    match text.toList with
    | 'p' :: 'l' :: 'u' :: 'g' :: 'i' :: 'n' :: ':' :: c :: rest =>
      .ok (plugin (String.ofList (c :: rest)))
    | _ => .error ⟨text⟩

/-- Puts the class loader on the stack. -/
def instructions (source : LoaderSource) (thisClass : BinaryName) : List SymInstruction :=
  let loader : Option FieldType := some (.object .classLoader)
  match source with
  | defining =>
    [.loadConstant (.classRef (.object thisClass)),
      .invoke .virtual (.ofClass .classObject .getClassLoader [] loader)]
  | context =>
    [.invoke .static (.ofClass .thread .currentThread [] (some (.object .thread))),
      .invoke .virtual (.ofClass .thread .getContextClassLoader [] loader)]
  | system => [.invoke .static (.ofClass .classLoader .getSystemClassLoader [] loader)]
  | plugin id =>
    [.invoke .static
        (.ofClass .pluginManager .getInstance [] (some (.object .pluginManager))),
      .loadConstant (.string id),
      .invoke .static
        (.ofClass .pluginId .getId [.object .string] (some (.object .pluginId))),
      .invoke .virtual (.ofClass .pluginManager .findEnabledPlugin [.object .pluginId]
        (some (.object .ideaPluginDescriptor))),
      .invoke (.interface 1)
        ⟨.object .pluginDescriptor, .getPluginClassLoader, ⟨[], loader⟩, true⟩]

end LoaderSource

namespace Initializer

def loadClassMethod : MethodRef :=
  .ofClass .classLoader .loadClass [.object .string] (some (.object .classObject))

def getMethodMethod : MethodRef :=
  .ofClass .classObject .getMethod [.object .string, .arrayOf (.object .classObject)]
    (some (.object .reflectMethod))

/-- Stores the class object of a parameter in the array on top of the stack. -/
def storeParameter (index : Nat) (parameter : FieldType) : List SymInstruction :=
  [.plain (.stack .dup), loadInt index, (ValueMarshal.of parameter).classObject,
    .plain (.arrayStore .reference)]

/-- Loads the interface, finds its method, and stores both in the fields. -/
def setupInstructions (thisClass : BinaryName) (interface : InterfaceMethod) (fields : HookFields)
    (source : LoaderSource) : List SymInstruction :=
  let parameters := interface.descriptor.parameters
  source.instructions thisClass
    ++ [.loadConstant (.string interface.owner.toDotted), .invoke .virtual loadClassMethod,
      .plain (.stack .dup), .field .putStatic fields.classField,
      .loadConstant (.string interface.name.text), loadInt parameters.length,
      .onClass .newArray (.object .classObject)]
    ++ parameters.zipIdx.flatMap (fun (parameter, index) => storeParameter index parameter)
    ++ [.invoke .virtual getMethodMethod, .field .putStatic fields.methodField]

def setup (thisClass : BinaryName) (interface : InterfaceMethod) (fields : HookFields)
    (source : LoaderSource) : List Item :=
  (setupInstructions thisClass interface fields source).map Item.instruction

/-- Does the setup load class constants? Class files before the fifth release cannot hold any. -/
def loadsClassConstants (interface : InterfaceMethod) (source : LoaderSource) : Bool :=
  source = .defining || interface.descriptor.parameters.any fun
    | .ref _ => true
    | .base _ => false

/-- Runs the setup before the rest of an initializer. -/
def prepend (setup : List Item) (body : Body) : Body := { body with items := setup ++ body.items }

/-- An initializer that does nothing but the setup. -/
def ofSetup (setup : List Item) : Body :=
  { Body.empty with items := setup ++ [.branch (.ret .void)] }

end Initializer

end ClassWeave
