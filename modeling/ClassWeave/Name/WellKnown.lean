import ClassWeave.Name.Basic

/-!
# Names of the platform

The classes, methods and fields of the Java platform that hooks and frames mention, and those of the
plugin manager that one loader source goes through.
-/

namespace ClassWeave

namespace UnqualifiedName

/-- The name of every constructor. -/
def init : UnqualifiedName := ⟨"<init>", by decide⟩

/-- The name of the static initializer. -/
def clinit : UnqualifiedName := ⟨"<clinit>", by decide⟩

def append : UnqualifiedName := ⟨"append", by decide⟩
def booleanValue : UnqualifiedName := ⟨"booleanValue", by decide⟩
def byteValue : UnqualifiedName := ⟨"byteValue", by decide⟩
def charValue : UnqualifiedName := ⟨"charValue", by decide⟩
def currentThread : UnqualifiedName := ⟨"currentThread", by decide⟩
def doubleValue : UnqualifiedName := ⟨"doubleValue", by decide⟩
def findEnabledPlugin : UnqualifiedName := ⟨"findEnabledPlugin", by decide⟩
def floatValue : UnqualifiedName := ⟨"floatValue", by decide⟩
def getClassLoader : UnqualifiedName := ⟨"getClassLoader", by decide⟩
def getContextClassLoader : UnqualifiedName := ⟨"getContextClassLoader", by decide⟩
def getId : UnqualifiedName := ⟨"getId", by decide⟩
def getInstance : UnqualifiedName := ⟨"getInstance", by decide⟩
def getMethod : UnqualifiedName := ⟨"getMethod", by decide⟩
def getPluginClassLoader : UnqualifiedName := ⟨"getPluginClassLoader", by decide⟩
def getSystemClassLoader : UnqualifiedName := ⟨"getSystemClassLoader", by decide⟩
def intValue : UnqualifiedName := ⟨"intValue", by decide⟩
def invoke : UnqualifiedName := ⟨"invoke", by decide⟩
def isInstance : UnqualifiedName := ⟨"isInstance", by decide⟩
def loadClass : UnqualifiedName := ⟨"loadClass", by decide⟩
def longValue : UnqualifiedName := ⟨"longValue", by decide⟩
def shortValue : UnqualifiedName := ⟨"shortValue", by decide⟩
def toStringName : UnqualifiedName := ⟨"toString", by decide⟩
def typeField : UnqualifiedName := ⟨"TYPE", by decide⟩
def valueOf : UnqualifiedName := ⟨"valueOf", by decide⟩

end UnqualifiedName

namespace BinaryName

def booleanBox : BinaryName := ⟨"java/lang/Boolean", by decide⟩
def byteBox : BinaryName := ⟨"java/lang/Byte", by decide⟩
def charBox : BinaryName := ⟨"java/lang/Character", by decide⟩
def classObject : BinaryName := ⟨"java/lang/Class", by decide⟩
def classLoader : BinaryName := ⟨"java/lang/ClassLoader", by decide⟩
def cloneable : BinaryName := ⟨"java/lang/Cloneable", by decide⟩
def doubleBox : BinaryName := ⟨"java/lang/Double", by decide⟩
def floatBox : BinaryName := ⟨"java/lang/Float", by decide⟩
def intBox : BinaryName := ⟨"java/lang/Integer", by decide⟩
def longBox : BinaryName := ⟨"java/lang/Long", by decide⟩
def reflectMethod : BinaryName := ⟨"java/lang/reflect/Method", by decide⟩
def methodHandle : BinaryName := ⟨"java/lang/invoke/MethodHandle", by decide⟩
def methodType : BinaryName := ⟨"java/lang/invoke/MethodType", by decide⟩

/-- The root of the class hierarchy. -/
def object : BinaryName := ⟨"java/lang/Object", by decide⟩

def reference : BinaryName := ⟨"java/lang/ref/Reference", by decide⟩
def serializable : BinaryName := ⟨"java/io/Serializable", by decide⟩
def shortBox : BinaryName := ⟨"java/lang/Short", by decide⟩
def string : BinaryName := ⟨"java/lang/String", by decide⟩
def stringBuilder : BinaryName := ⟨"java/lang/StringBuilder", by decide⟩
def thread : BinaryName := ⟨"java/lang/Thread", by decide⟩
def throwable : BinaryName := ⟨"java/lang/Throwable", by decide⟩

def pluginManager : BinaryName := ⟨"com/intellij/ide/plugins/PluginManager", by decide⟩
def pluginId : BinaryName := ⟨"com/intellij/openapi/extensions/PluginId", by decide⟩
def ideaPluginDescriptor : BinaryName :=
  ⟨"com/intellij/ide/plugins/IdeaPluginDescriptor", by decide⟩
def pluginDescriptor : BinaryName :=
  ⟨"com/intellij/openapi/extensions/PluginDescriptor", by decide⟩

end BinaryName

end ClassWeave
