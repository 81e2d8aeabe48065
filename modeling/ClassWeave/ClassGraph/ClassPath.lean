import ClassWeave.Archive.Zip
import ClassWeave.ClassGraph.Platform
import ClassWeave.Files.Tree

/-!
# Class paths

Classes in directories and in archives, as class paths and Java installations hold them.
-/

namespace ClassWeave

namespace ClassSource

/-- The names to follow to the file of a class. -/
def fileNames (name : BinaryName) : List String := (name.text ++ ".class").splitOn "/"

/-- Classes in a directory, one file each, in directories named for their packages. -/
def ofDirectory (tree : FileTree) : ClassSource :=
  ⟨tree.fileCount, fun name =>
    match tree.contentAt ⟨fileNames name, false⟩ with
    | .ok content => some <$> ClassHeader.ofBytes content.toList
    | .error .notFound => .ok none
    | .error kind => .error (.io kind)⟩

/-- Classes in an archive, below the folder that `folder` spells. -/
def ofArchive (archive : Archive) (folder : String) : ClassSource :=
  ⟨archive.entries.size, fun name => do
    match ← archive.find (folder ++ name.text ++ ".class") with
    | some content => some <$> ClassHeader.ofBytes content.toList
    | none => return none⟩

/-- Classes in the archive that a path leads to. Module archives keep theirs in a folder. -/
def ofArchiveAt (tree : FileTree) (path : TreePath) : Except Fault ClassSource := do
  let content ← (tree.contentAt path).mapError fun
    | .isADirectory => .io .other
    | kind => .io kind
  let archive ← Archive.read content
  return ofArchive archive (if path.extension? = some "jmod" then "classes/" else "")

/-- An entry of a class path: a directory, or else an archive. -/
def ofEntry (tree : FileTree) (path : String) : Except Fault ClassSource :=
  match TreePath.ofString? path with
  | none => .error (.io .notFound)
  | some path =>
    match tree.find path with
    | .ok (.directory entries) => .ok (ofDirectory (.directory entries))
    | _ => ofArchiveAt tree path

/-- The platform classes, then those of the entries. -/
def ofClassPath (tree : FileTree) (entries : List String) : Except Fault ClassSource := do
  return .ofList (.platform :: (← entries.mapM (ofEntry tree)))

/-- The module that nearly everything is found in. -/
def baseModule : String := "java.base.jmod"

/-- The classes of the modules in a directory, the base module's first. -/
def ofModules (tree : FileTree) (folder : TreePath) : Except Fault ClassSource := do
  let modules := (tree.namesIn folder).filter fun name =>
    (folder.join [name]).extension? = some "jmod"
  let (base, others) := modules.partition (· = baseModule)
  return .ofList (← (base ++ others).mapM fun name => ofArchiveAt tree (folder.join [name]))

/-- The classes of a Java installation. Newer ones keep them in modules, older ones in one archive.
-/
def ofJavaHome (tree : FileTree) (home : TreePath) : Except Fault ClassSource :=
  let modules := home.join ["jmods"]
  if tree.hasDirectory modules then ofModules tree modules
  else
    match [["jre", "lib", "rt.jar"], ["lib", "rt.jar"]].find? fun names =>
        tree.hasFile (home.join names) with
    | some names => ofArchiveAt tree (home.join names)
    | none => .error (.io .notFound)

end ClassSource

end ClassWeave
