/-!
# Paths

Paths are text with components between slashes. Everything here is lexical: `.` and `..` are removed
without a look at the file system.
-/

namespace SymbolIndex.Path

def segmentsFrom (segment : List Char) : List Char → List (List Char)
  | [] => [segment]
  | c :: s => if c == '/' then segment :: segmentsFrom [] s else segmentsFrom (segment ++ [c]) s

/-- The pieces between slashes, empty ones included. -/
def segments (path : String) : List String := (segmentsFrom [] path.toList).map String.ofList

def isAbsolute (path : String) : Bool := path.toList.head? == some '/'

/-- Take one step from a directory given by its components. -/
def descend (components : List String) (segment : String) : List String :=
  if segment = "" ∨ segment = "." then components
  else if segment = ".." then components.dropLast
  else components ++ [segment]

/-- The components of a path that is relative to `base` unless it is absolute. -/
def components (base path : String) : List String :=
  let start := if isAbsolute path then [] else (segments base).foldl descend []
  (segments path).foldl descend start

/-- The absolute path with the given components. -/
def ofComponents : List String → String
  | [] => "/"
  | parts => String.join (parts.map ("/" ++ ·))

/-- The path made absolute and freed of `.`, `..` and doubled slashes. -/
def normalize (base path : String) : String := ofComponents (components base path)

/-- The directory that a path's last component stands in. -/
def directoryOf (base path : String) : String := ofComponents (components base path).dropLast

/-- A directory's path with one slash at its end. -/
def asFolder (directory : String) : String :=
  String.ofList (directory.toList.reverse.dropWhile (· == '/')).reverse ++ "/"

/-- The path is a directory or stands below it, as text. -/
def isUnder (directory path : String) : Bool :=
  path == directory || (asFolder directory).toList.isPrefixOf path.toList

/-- What two lists start with in common is dropped from both. -/
def dropCommon : List String → List String → List String × List String
  | a :: as, b :: bs => if a = b then dropCommon as bs else (a :: as, b :: bs)
  | as, bs => (as, bs)

/-- The way from one directory to a path, by `..` where it has to go up. -/
def relative (base directory path : String) : String :=
  let (up, down) := dropCommon (components base directory) (components base path)
  match up.map (fun _ => "..") ++ down with
  | [] => "."
  | parts => "/".intercalate parts

/-- A name inside a directory, whose path may already end in a slash. -/
def inside (directory name : String) : String :=
  if directory = "" ∨ directory.toList.getLast? = some '/' then directory ++ name
  else directory ++ "/" ++ name

/-- The paths that lead to a path, one step longer each; the last one is the path itself. -/
def stages (path : String) : List String :=
  (List.range (segments path).length).map fun n => "/".intercalate ((segments path).take (n + 1))

end SymbolIndex.Path
