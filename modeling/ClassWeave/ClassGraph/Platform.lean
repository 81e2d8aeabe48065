import ClassWeave.ClassGraph.Source

/-!
# Platform classes

The classes of the Java platform that are known without a class path. They are those that often meet
in hooked methods.
-/

namespace ClassWeave

/-- A class of the platform, names being spelt as in class files. -/
structure PlatformClass where
  name : String
  superclass : Option String
  interfaces : List String
  isInterface : Bool

namespace PlatformClass

def ofClass (name superclass : String) (interfaces : List String) : PlatformClass :=
  ⟨name, some superclass, interfaces, false⟩

def ofInterface (name : String) (interfaces : List String) : PlatformClass :=
  ⟨name, some "java/lang/Object", interfaces, true⟩

/-- The header, if all names are well formed. -/
def header? (entry : PlatformClass) : Except NameError ClassHeader := do
  return ⟨← BinaryName.ofString entry.name, ← entry.superclass.mapM BinaryName.ofString,
    ← entry.interfaces.mapM BinaryName.ofString, entry.isInterface⟩

def all : List PlatformClass :=
  [ ⟨"java/lang/Object", none, [], false⟩,
    .ofInterface "java/io/Serializable" [],
    .ofInterface "java/lang/Comparable" [],
    .ofInterface "java/lang/CharSequence" [],
    .ofInterface "java/lang/Appendable" [],
    .ofInterface "java/lang/Cloneable" [],
    .ofInterface "java/lang/Runnable" [],
    .ofInterface "java/lang/AutoCloseable" [],
    .ofInterface "java/lang/Iterable" [],
    .ofClass "java/lang/String" "java/lang/Object"
      ["java/io/Serializable", "java/lang/Comparable", "java/lang/CharSequence"],
    .ofClass "java/lang/AbstractStringBuilder" "java/lang/Object"
      ["java/lang/Appendable", "java/lang/CharSequence"],
    .ofClass "java/lang/StringBuilder" "java/lang/AbstractStringBuilder"
      ["java/io/Serializable", "java/lang/CharSequence"],
    .ofClass "java/lang/Class" "java/lang/Object" ["java/io/Serializable"],
    .ofClass "java/lang/ClassLoader" "java/lang/Object" [],
    .ofClass "java/lang/Thread" "java/lang/Object" ["java/lang/Runnable"],
    .ofClass "java/lang/Number" "java/lang/Object" ["java/io/Serializable"],
    .ofClass "java/lang/Byte" "java/lang/Number" ["java/lang/Comparable"],
    .ofClass "java/lang/Short" "java/lang/Number" ["java/lang/Comparable"],
    .ofClass "java/lang/Integer" "java/lang/Number" ["java/lang/Comparable"],
    .ofClass "java/lang/Long" "java/lang/Number" ["java/lang/Comparable"],
    .ofClass "java/lang/Float" "java/lang/Number" ["java/lang/Comparable"],
    .ofClass "java/lang/Double" "java/lang/Number" ["java/lang/Comparable"],
    .ofClass "java/lang/Boolean" "java/lang/Object"
      ["java/io/Serializable", "java/lang/Comparable"],
    .ofClass "java/lang/Character" "java/lang/Object"
      ["java/io/Serializable", "java/lang/Comparable"],
    .ofClass "java/lang/Void" "java/lang/Object" [],
    .ofClass "java/lang/Enum" "java/lang/Object" ["java/io/Serializable", "java/lang/Comparable"],
    .ofClass "java/lang/Throwable" "java/lang/Object" ["java/io/Serializable"],
    .ofClass "java/lang/Exception" "java/lang/Throwable" [],
    .ofClass "java/lang/Error" "java/lang/Throwable" [],
    .ofClass "java/lang/RuntimeException" "java/lang/Exception" [],
    .ofClass "java/lang/IllegalArgumentException" "java/lang/RuntimeException" [],
    .ofClass "java/lang/IllegalStateException" "java/lang/RuntimeException" [],
    .ofClass "java/lang/NullPointerException" "java/lang/RuntimeException" [],
    .ofClass "java/lang/ClassCastException" "java/lang/RuntimeException" [],
    .ofClass "java/lang/ArithmeticException" "java/lang/RuntimeException" [],
    .ofClass "java/lang/UnsupportedOperationException" "java/lang/RuntimeException" [],
    .ofClass "java/lang/IndexOutOfBoundsException" "java/lang/RuntimeException" [],
    .ofClass "java/lang/ArrayIndexOutOfBoundsException" "java/lang/IndexOutOfBoundsException" [],
    .ofClass "java/lang/ReflectiveOperationException" "java/lang/Exception" [],
    .ofClass "java/lang/ClassNotFoundException" "java/lang/ReflectiveOperationException" [],
    .ofClass "java/lang/NoSuchMethodException" "java/lang/ReflectiveOperationException" [],
    .ofClass "java/lang/IllegalAccessException" "java/lang/ReflectiveOperationException" [],
    .ofClass "java/lang/reflect/InvocationTargetException" "java/lang/ReflectiveOperationException"
      [],
    .ofClass "java/lang/LinkageError" "java/lang/Error" [],
    .ofClass "java/lang/NoClassDefFoundError" "java/lang/LinkageError" [],
    .ofClass "java/lang/ExceptionInInitializerError" "java/lang/LinkageError" [],
    .ofClass "java/io/IOException" "java/lang/Exception" [],
    .ofInterface "java/lang/reflect/AnnotatedElement" [],
    .ofInterface "java/lang/reflect/Member" [],
    .ofInterface "java/lang/reflect/GenericDeclaration" ["java/lang/reflect/AnnotatedElement"],
    .ofClass "java/lang/reflect/AccessibleObject" "java/lang/Object"
      ["java/lang/reflect/AnnotatedElement"],
    .ofClass "java/lang/reflect/Executable" "java/lang/reflect/AccessibleObject"
      ["java/lang/reflect/Member", "java/lang/reflect/GenericDeclaration"],
    .ofClass "java/lang/reflect/Method" "java/lang/reflect/Executable" [],
    .ofClass "java/lang/reflect/Field" "java/lang/reflect/AccessibleObject"
      ["java/lang/reflect/Member"],
    .ofClass "java/lang/ref/Reference" "java/lang/Object" [],
    .ofClass "java/lang/ref/SoftReference" "java/lang/ref/Reference" [],
    .ofClass "java/lang/ref/WeakReference" "java/lang/ref/Reference" [],
    .ofInterface "java/util/Collection" ["java/lang/Iterable"],
    .ofInterface "java/util/List" ["java/util/Collection"],
    .ofInterface "java/util/Set" ["java/util/Collection"],
    .ofInterface "java/util/Map" [],
    .ofInterface "java/util/RandomAccess" [],
    .ofClass "java/util/AbstractCollection" "java/lang/Object" ["java/util/Collection"],
    .ofClass "java/util/AbstractList" "java/util/AbstractCollection" ["java/util/List"],
    .ofClass "java/util/ArrayList" "java/util/AbstractList"
      ["java/util/List", "java/util/RandomAccess", "java/lang/Cloneable", "java/io/Serializable"],
    .ofClass "java/util/AbstractSet" "java/util/AbstractCollection" ["java/util/Set"],
    .ofClass "java/util/HashSet" "java/util/AbstractSet"
      ["java/util/Set", "java/lang/Cloneable", "java/io/Serializable"],
    .ofClass "java/util/AbstractMap" "java/lang/Object" ["java/util/Map"],
    .ofClass "java/util/HashMap" "java/util/AbstractMap"
      ["java/util/Map", "java/lang/Cloneable", "java/io/Serializable"]]

end PlatformClass

/-- The source of the platform classes. -/
def ClassSource.platform : ClassSource :=
  .ofHeaders (PlatformClass.all.filterMap fun entry => entry.header?.toOption)

end ClassWeave
