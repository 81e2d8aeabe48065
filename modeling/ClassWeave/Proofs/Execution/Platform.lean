import ClassWeave.Code.Operand

/-!
# Classes and methods of the platform

What the platform's documentation says a class or a method is called. Machines know the calls that
they can answer by these names alone, so that code which asks for anything else gets no answer.
-/

namespace ClassWeave.Platform

def className (text : String) (isName : (binaryError? text.toList).isNone = true) : BinaryName :=
  ⟨text, Option.isNone_iff_eq_none.mp isName⟩

def memberName (text : String) (isName : (segmentError? text.toList).isNone = true) :
    UnqualifiedName :=
  ⟨text, Option.isNone_iff_eq_none.mp isName⟩

def object : BinaryName := className "java/lang/Object" (by decide)
def string : BinaryName := className "java/lang/String" (by decide)
def thread : BinaryName := className "java/lang/Thread" (by decide)
def classes : BinaryName := className "java/lang/Class" (by decide)
def classLoader : BinaryName := className "java/lang/ClassLoader" (by decide)
def method : BinaryName := className "java/lang/reflect/Method" (by decide)
def pluginManager : BinaryName := className "com/intellij/ide/plugins/PluginManager" (by decide)
def pluginId : BinaryName := className "com/intellij/openapi/extensions/PluginId" (by decide)
def plugin : BinaryName := className "com/intellij/openapi/extensions/PluginDescriptor" (by decide)
def ideaPlugin : BinaryName := className "com/intellij/ide/plugins/IdeaPluginDescriptor" (by decide)

section Primitives

def primitives : List BaseType := [.boolean, .byte, .char, .short, .int, .long, .float, .double]

/-- The class whose objects wrap a primitive. -/
def wrapper : BaseType → BinaryName
  | .boolean => className "java/lang/Boolean" (by decide)
  | .byte => className "java/lang/Byte" (by decide)
  | .char => className "java/lang/Character" (by decide)
  | .short => className "java/lang/Short" (by decide)
  | .int => className "java/lang/Integer" (by decide)
  | .long => className "java/lang/Long" (by decide)
  | .float => className "java/lang/Float" (by decide)
  | .double => className "java/lang/Double" (by decide)

/-- The static method that wraps a primitive. -/
def wrap (type : BaseType) : MethodRef where
  owner := .object (wrapper type)
  name := memberName "valueOf" (by decide)
  descriptor := ⟨[.base type], some (.object (wrapper type))⟩
  isInterface := false

def unwrapName : BaseType → UnqualifiedName
  | .boolean => memberName "booleanValue" (by decide)
  | .byte => memberName "byteValue" (by decide)
  | .char => memberName "charValue" (by decide)
  | .short => memberName "shortValue" (by decide)
  | .int => memberName "intValue" (by decide)
  | .long => memberName "longValue" (by decide)
  | .float => memberName "floatValue" (by decide)
  | .double => memberName "doubleValue" (by decide)

/-- The method of a wrapper that gives the primitive back. -/
def unwrap (type : BaseType) : MethodRef where
  owner := .object (wrapper type)
  name := unwrapName type
  descriptor := ⟨[], some (.base type)⟩
  isInterface := false

/-- The static field with the class object of a primitive. -/
def primitiveClass (type : BaseType) : FieldRef where
  owner := wrapper type
  name := memberName "TYPE" (by decide)
  type := .object classes

end Primitives

section Reflection

/-- The name that loaders know a class by. -/
def runtimeName (name : BinaryName) : String :=
  name.text.map fun c => if c = '/' then '.' else c

/-- Calls a method on an object, with an array of arguments. -/
def invoke : MethodRef where
  owner := .object method
  name := memberName "invoke" (by decide)
  descriptor := ⟨[.object object, .arrayOf (.object object)], some (.object object)⟩
  isInterface := false

/-- Asks a loader for the class of a name. -/
def loadClass : MethodRef where
  owner := .object classLoader
  name := memberName "loadClass" (by decide)
  descriptor := ⟨[.object string], some (.object classes)⟩
  isInterface := false

/-- Asks a class for the method of a name, with an array of the classes of its parameters. -/
def getMethod : MethodRef where
  owner := .object classes
  name := memberName "getMethod" (by decide)
  descriptor := ⟨[.object string, .arrayOf (.object classes)], some (.object method)⟩
  isInterface := false

end Reflection

section Loaders

/-- Asks a class for its loader. -/
def getClassLoader : MethodRef where
  owner := .object classes
  name := memberName "getClassLoader" (by decide)
  descriptor := ⟨[], some (.object classLoader)⟩
  isInterface := false

/-- Static. -/
def currentThread : MethodRef where
  owner := .object thread
  name := memberName "currentThread" (by decide)
  descriptor := ⟨[], some (.object thread)⟩
  isInterface := false

/-- Asks a thread for its loader. -/
def getContextClassLoader : MethodRef where
  owner := .object thread
  name := memberName "getContextClassLoader" (by decide)
  descriptor := ⟨[], some (.object classLoader)⟩
  isInterface := false

/-- Static. -/
def getSystemClassLoader : MethodRef where
  owner := .object classLoader
  name := memberName "getSystemClassLoader" (by decide)
  descriptor := ⟨[], some (.object classLoader)⟩
  isInterface := false

/-- Static, of the plugin manager. -/
def getInstance : MethodRef where
  owner := .object pluginManager
  name := memberName "getInstance" (by decide)
  descriptor := ⟨[], some (.object pluginManager)⟩
  isInterface := false

/-- The plugin id of a text. Static. -/
def getId : MethodRef where
  owner := .object pluginId
  name := memberName "getId" (by decide)
  descriptor := ⟨[.object string], some (.object pluginId)⟩
  isInterface := false

/-- Asks the plugin manager for the plugin of an id. -/
def findEnabledPlugin : MethodRef where
  owner := .object pluginManager
  name := memberName "findEnabledPlugin" (by decide)
  descriptor := ⟨[.object pluginId], some (.object ideaPlugin)⟩
  isInterface := false

/-- Asks a plugin for its loader. -/
def getPluginClassLoader : MethodRef where
  owner := .object plugin
  name := memberName "getPluginClassLoader" (by decide)
  descriptor := ⟨[], some (.object classLoader)⟩
  isInterface := true

end Loaders

end ClassWeave.Platform
