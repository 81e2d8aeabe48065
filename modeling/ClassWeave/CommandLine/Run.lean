import ClassWeave.ClassGraph.ClassPath
import ClassWeave.CommandLine.Options
import ClassWeave.Hook.SpecFile
import ClassWeave.Hook.Transformer

/-!
# Running the command line

Reads a class and hook specs, weaves hooks in if one of the specs is for the class, and writes it
out. What is to be written is planned first, so that all reading comes before all writing.
-/

namespace ClassWeave

/-- A file to write. -/
structure FileWrite where
  path : String
  content : ByteArray
  /-- A copy of the class for looking into: its directories are created, and it does not matter if
  it cannot be written. -/
  isDump : Bool

namespace Options

/-- The classes of the installation that the environment names, if there are any. -/
def javaHomeSource (tree : FileTree) (javaHome : Option String) : ClassSource :=
  match javaHome with
  | none => .empty
  | some home =>
    match ClassSource.ofJavaHome tree ((TreePath.ofString? home).getD ⟨[], true⟩) with
    | .ok source => source
    | .error _ => .empty

/-- All classes that can be looked up. The installation in the environment stands in for one that is
not given. -/
def classSource (options : Options) (tree : FileTree) (javaHome : Option String) :
    Except Fault ClassSource := do
  let entries ← ClassSource.ofClassPath tree options.classPath
  match options.jdk with
  | some home =>
    let home ← match TreePath.ofString? home with
      | some path => ClassSource.ofJavaHome tree path
      | none => throw (.io .notFound)
    return entries.orElse home
  | none => return entries.orElse (javaHomeSource tree javaHome)

def contentAt (tree : FileTree) (path : String) : Except Fault ByteArray :=
  match TreePath.ofString? path with
  | some path => (tree.contentAt path).mapError .io
  | none => .error (.io .notFound)

/-- The specs in a file, whose text is in UTF-8. -/
def readSpecs (tree : FileTree) (path : String) : Except HookFault (List ClassSpec) := do
  let content ← (contentAt tree path).mapError HookFault.classFile
  match String.fromUTF8? content with
  | some text => (SpecFile.parse text).mapError .invalidSpec
  | none => throw (.classFile (.io .invalidData))

/-- Where the copy of a class goes. -/
def dumpPath (directory : String) (name : BinaryName) : String :=
  directory ++ "/" ++ name.text ++ ".class"

/-- The files to write. Of two specs for one class the later one counts. -/
def plan (options : Options) (tree : FileTree) (javaHome : Option String) :
    Except HookFault (List FileWrite) := do
  let source ← (options.classSource tree javaHome).mapError HookFault.classFile
  let settings := { Settings.default with loaderSource := options.loader }
  let specs ← readSpecs tree options.spec
  let transformer := specs.foldl (fun transformer entry =>
    transformer.addSpec entry.className entry.spec) (Transformer.new settings source)
  let content ← (contentAt tree options.input).mapError HookFault.classFile
  match ← transformer.transform content.toList with
  | .passedThrough => return [⟨options.output, content, false⟩]
  | .woven name bytes =>
    let bytes : ByteArray := ⟨bytes.toArray⟩
    let dumps := options.debugDirectory.toList.map fun directory =>
      (⟨dumpPath directory name, bytes, true⟩ : FileWrite)
    return dumps ++ [⟨options.output, bytes, false⟩]

end Options

namespace FileTree

def perform (tree : FileTree) (write : FileWrite) : Except IoKind FileTree :=
  match TreePath.ofString? write.path with
  | none => if write.isDump then .ok tree else .error .notFound
  | some path =>
    if write.isDump then .ok ((tree.putDeep path write.content).toOption.getD tree)
    else tree.put path write.content

/-- Writes files in order, and says whether all could be written that matter. -/
def performAll (tree : FileTree) : List FileWrite → FileTree × Bool
  | [] => (tree, true)
  | write :: rest =>
    match tree.perform write with
    | .ok tree => tree.performAll rest
    | .error _ => (tree, false)

end FileTree

/-- How the command line ends. -/
inductive ExitCode where
  | success
  | failure
  | misuse
  | fatal
  deriving DecidableEq, Repr

def ExitCode.number : ExitCode → Nat
  | success => 0
  | failure => 1
  | misuse => 2
  | fatal => 101

def NoTask.exitCode : NoTask → ExitCode
  | help | version => .success
  | misuse => .misuse

def HookFault.exitCode (fault : HookFault) : ExitCode := if fault.isFatal then .fatal else .failure

namespace CommandLine

/-- Runs the command line on files, and answers with the files afterwards. -/
def run (arguments : List String) (javaHome : Option String) (tree : FileTree) :
    ExitCode × FileTree :=
  match Options.ofArguments arguments with
  | .error noTask => (noTask.exitCode, tree)
  | .ok options =>
    match options.plan tree javaHome with
    | .error fault => (fault.exitCode, tree)
    | .ok writes =>
      let (tree, allWritten) := tree.performAll writes
      (if allWritten then .success else .failure, tree)

end CommandLine

end ClassWeave
