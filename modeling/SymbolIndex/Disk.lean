import SymbolIndex.Path

/-!
# Files and directories

A directory is a list of named entries. A path is followed from the root, one step at a time: each
step but the last has to lead into a directory, also where the next one leads back.
-/

namespace SymbolIndex

inductive Directory where
  | empty
  | file (name : String) (rest : Directory)
  | folder (name : String) (inner rest : Directory)
  deriving DecidableEq, Repr

/-- What a path leads to. -/
inductive DiskEntry where
  | file
  | folder (inner : Directory)
  deriving DecidableEq, Repr

namespace Directory

def find? (name : String) : Directory → Option DiskEntry
  | empty => none
  | file other rest => if other = name then some .file else rest.find? name
  | folder other inner rest => if other = name then some (.folder inner) else rest.find? name

/-- Change the folder of a name, which is made if there is none. -/
def changeFolder (name : String) (change : Directory → Directory) : Directory → Directory
  | empty => folder name (change empty) empty
  | file other rest => file other (rest.changeFolder name change)
  | folder other inner rest =>
    if other = name then folder other (change inner) rest
    else folder other inner (rest.changeFolder name change)

/-- Add a folder with the folders on the way to it. -/
def addFolder : List String → Directory → Directory
  | [], dir => dir
  | name :: path, dir => dir.changeFolder name (addFolder path)

/-- Add a file with the folders on the way to it. -/
def addFile : List String → Directory → Directory
  | [], dir => dir
  | [name], dir => file name dir
  | name :: path, dir => dir.changeFolder name (addFile path)

/-- Follow steps from a directory, given with the directories that lead to it, innermost first. -/
def follow (dir : Directory) (outer : List Directory) : List String → Option DiskEntry
  | [] => some (.folder dir)
  | step :: steps =>
    if step = "" ∨ step = "." then dir.follow outer steps
    else if step = ".." then
      match outer with
      | [] => dir.follow [] steps
      | up :: outer => up.follow outer steps
    else
      match dir.find? step with
      | none => none
      | some .file => if steps.isEmpty then some .file else none
      | some (.folder inner) => inner.follow (dir :: outer) steps

end Directory

/-- A file system with the directory that relative paths start from. -/
structure Disk where
  root : Directory
  base : String
  deriving DecidableEq, Repr

namespace Disk

def entry? (disk : Disk) (path : String) : Option DiskEntry :=
  if path = "" then none
  else
    let path := if Path.isAbsolute path then path else disk.base ++ "/" ++ path
    disk.root.follow [] (Path.segments path)

def hasPath (disk : Disk) (path : String) : Bool := (disk.entry? path).isSome

def isFile (disk : Disk) (path : String) : Bool := disk.entry? path == some .file

def isFolder (disk : Disk) (path : String) : Bool :=
  match disk.entry? path with
  | some (.folder _) => true
  | _ => false

/-- A file can be written at a path: its last step is a name that no folder has, in a folder. -/
def canWrite (disk : Disk) (path : String) : Bool :=
  match (Path.segments path).getLast? with
  | none => false
  | some name =>
    let folder := "/".intercalate ((Path.segments path).dropLast ++ ["."])
    !(["", ".", ".."].contains name) && disk.isFolder folder && !disk.isFolder path

end Disk

end SymbolIndex
