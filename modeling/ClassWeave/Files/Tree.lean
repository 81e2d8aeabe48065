import ClassWeave.Fault

/-!
# File trees

Files and directories as a value. Paths are relative to the top of the tree; a leading slash counts
as a directory of its own.
-/

namespace ClassWeave

inductive FileTree where
  | file (content : ByteArray)
  | directory (entries : List (String × FileTree))

/-- A path as the names to follow. -/
structure TreePath where
  names : List String
  /-- Does the path end in a slash, so that it must lead to a directory? -/
  toDirectory : Bool
  deriving DecidableEq, Repr

namespace TreePath

/-- Adds a name to reversed names. -/
def follow (names : List String) (name : String) : List String :=
  if name = "" ∨ name = "." then names
  else if name = ".." then
    match names with
    | [] => [name]
    | last :: above => if last = ".." then name :: names else above
  else name :: names

/-- The path that a text spells. The empty text spells none. -/
def ofString? (text : String) : Option TreePath :=
  match text.toList with
  | [] => none
  | first :: _ =>
    let names := (text.splitOn "/").foldl follow (if first = '/' then ["/"] else [])
    some ⟨names.reverse, text.endsWith "/"⟩

def join (path : TreePath) (names : List String) : TreePath := ⟨path.names ++ names, false⟩

/-- What follows the last point of the last name, unless the name has no other point before its end.
-/
def extension? (path : TreePath) : Option String := do
  let last ← path.names.getLast?
  match last.splitOn "." with
  | [_] | ["", _] => none
  | parts => parts.getLast?

end TreePath

namespace FileTree

def empty : FileTree := directory []

mutual

/-- The number of files. -/
def fileCount : FileTree → Nat
  | file _ => 1
  | directory entries => fileCountIn entries

def fileCountIn : List (String × FileTree) → Nat
  | [] => 0
  | (_, entry) :: rest => entry.fileCount + fileCountIn rest

end

/-- The longest name, in bytes. -/
def maxNameSize : Nat := 255

/-- What a path of names leads to. -/
def findNames : FileTree → List String → Except IoKind FileTree
  | tree, [] => .ok tree
  | file _, _ :: _ => .error .notADirectory
  | directory entries, name :: rest =>
    match entries.lookup name with
    | some entry => findNames entry rest
    | none => .error (if maxNameSize < name.utf8ByteSize then .nameTooLong else .notFound)

/-- What a path leads to. No name holds a zero character. -/
def find (tree : FileTree) (path : TreePath) : Except IoKind FileTree :=
  if path.names.any (·.contains '\x00') then .error .invalidInput
  else
    match tree.findNames path.names with
    | .ok (file content) =>
      if path.toDirectory then .error .notADirectory else .ok (file content)
    | found => found

/-- The content of the file that a path leads to. -/
def contentAt (tree : FileTree) (path : TreePath) : Except IoKind ByteArray :=
  match tree.find path with
  | .ok (file content) => .ok content
  | .ok (directory _) => .error .isADirectory
  | .error kind => .error kind

def hasDirectory (tree : FileTree) (path : TreePath) : Bool :=
  match tree.find path with
  | .ok (directory _) => true
  | _ => false

def hasFile (tree : FileTree) (path : TreePath) : Bool :=
  match tree.find path with
  | .ok (file _) => true
  | _ => false

/-- The names in the directory that a path leads to. -/
def namesIn (tree : FileTree) (path : TreePath) : List String :=
  match tree.find path with
  | .ok (directory entries) => entries.map Prod.fst
  | _ => []

/-- Puts an entry in the place of the one of its name, or at the end. -/
def setEntry (name : String) (entry : FileTree) :
    List (String × FileTree) → List (String × FileTree)
  | [] => [(name, entry)]
  | (other, old) :: rest =>
    if other = name then (name, entry) :: rest else (other, old) :: setEntry name entry rest

/-- Writes a file, whose directory must exist unless `create` is set. -/
def putNames (create : Bool) (content : ByteArray) :
    FileTree → List String → Except IoKind FileTree
  | file _, [] => .ok (file content)
  | directory _, [] => .error .isADirectory
  | file _, _ :: _ => .error .notADirectory
  | directory entries, name :: rest =>
    match entries.lookup name with
    | some entry => do
      return directory (setEntry name (← putNames create content entry rest) entries)
    | none =>
      match rest with
      | [] => .ok (directory (setEntry name (file content) entries))
      | _ :: _ =>
        if create then do
          return directory (setEntry name (← putNames create content empty rest) entries)
        else .error .notFound

/-- Writes a file into a directory that exists. -/
def put (tree : FileTree) (path : TreePath) (content : ByteArray) :
    Except IoKind FileTree :=
  if path.toDirectory then .error .isADirectory else putNames false content tree path.names

/-- Writes a file, creating the directories on the way to it. -/
def putDeep (tree : FileTree) (path : TreePath) (content : ByteArray) :
    Except IoKind FileTree :=
  if path.toDirectory then .error .isADirectory else putNames true content tree path.names

/-- Puts a whole tree where a path of names leads to. -/
def graft (tree : FileTree) : FileTree → List String → Except IoKind FileTree
  | _, [] => .ok tree
  | file _, _ :: _ => .error .notADirectory
  | directory entries, name :: rest => do
    let entry := (entries.lookup name).getD empty
    return directory (setEntry name (← graft tree entry rest) entries)

/-- Makes sure that a directory exists. -/
def addDirectory : FileTree → List String → Except IoKind FileTree
  | directory entries, [] => .ok (directory entries)
  | file _, [] => .error .alreadyExists
  | file _, _ :: _ => .error .notADirectory
  | directory entries, name :: rest => do
    let entry := (entries.lookup name).getD empty
    return directory (setEntry name (← addDirectory entry rest) entries)

end FileTree

end ClassWeave
