import ClassWeave.CommandLine.Run

/-!
# The command line

Reads the files that the options name, runs on them, and writes what was planned.
-/

namespace ClassWeave

namespace CommandLine

def usage : String :=
  "Usage: classweave --spec <FILE> --output <FILE> [--classpath <PATH>]... [--jdk <JAVA_HOME>] "
    ++ "[--debug-dir <DIRECTORY>] [--loader <LOADER>] <INPUT>"

def version : String := "classweave 0.1.0"

/-- What is at a path, with all that is in it; nothing if it cannot be read. -/
partial def load (path : String) : IO (Option FileTree) := do
  match ← EIO.toBaseIO (IO.FS.realPath path) with
  | .error _ => return none
  | .ok place =>
    match ← EIO.toBaseIO place.readDir with
    | .ok found =>
      let mut entries := []
      for entry in found do
        if let some tree ← load (path ++ "/" ++ entry.fileName) then
          entries := (entry.fileName, tree) :: entries
      return some (.directory (entries.mergeSort fun a b => a.1 ≤ b.1))
    | .error _ =>
      match ← EIO.toBaseIO (IO.FS.readBinFile path) with
      | .ok content => return some (.file content)
      | .error _ => return none

/-- The places in a Java installation where classes can be. -/
def libraryPaths (home : String) : List String :=
  ["jmods", "jre/lib/rt.jar", "lib/rt.jar"].map fun name =>
    if home = "" then name else home ++ "/" ++ name

/-- All that a task may read. -/
def loadAll (options : Options) (javaHome : Option String) : IO FileTree := do
  let home := options.jdk.or javaHome
  let paths := options.spec :: options.input :: options.classPath
    ++ (home.map libraryPaths).getD []
  let mut tree := FileTree.empty
  for path in paths do
    if let some place := TreePath.ofString? path then
      if let some found ← load path then
        if let .ok grown := FileTree.graft found tree place.names then tree := grown
  return tree

/-- The directory that a file is in. -/
def directoryOf (path : String) : String :=
  "/".intercalate (path.splitOn "/").dropLast

def perform (write : FileWrite) : IO Unit := do
  if write.isDump then
    try
      IO.FS.createDirAll (directoryOf write.path)
      IO.FS.writeBinFile write.path write.content
    catch fault => IO.eprintln ("Failed to write " ++ write.path ++ ": " ++ toString fault)
  else IO.FS.writeBinFile write.path write.content

/-- Carries out a task. -/
def carryOut (options : Options) : IO ExitCode := do
  let javaHome ← IO.getEnv "JAVA_HOME"
  match options.plan (← loadAll options javaHome) javaHome with
  | .error fault =>
    IO.eprintln ("Error: " ++ fault.message)
    return fault.exitCode
  | .ok writes =>
    try
      writes.forM perform
      return .success
    catch fault =>
      IO.eprintln ("Error: " ++ toString fault)
      return .failure

def start (arguments : List String) : IO ExitCode := do
  match Options.ofArguments arguments with
  | .ok options => carryOut options
  | .error noTask =>
    match noTask with
    | .help => IO.println usage
    | .version => IO.println version
    | .misuse => IO.eprintln usage
    return noTask.exitCode

end CommandLine

end ClassWeave

def main (arguments : List String) : IO UInt32 := do
  return UInt32.ofNat (← ClassWeave.CommandLine.start arguments).number
