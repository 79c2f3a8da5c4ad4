import SymbolIndex.Disk

/-!
# Finding headers

Headers are the files whose names end in `.h`, `.hpp` or `.hxx`; one line feed may follow.
-/

namespace SymbolIndex

def headerEndings : List (List Char) := [".h".toList, ".hpp".toList, ".hxx".toList]

def endsAsHeader (name : List Char) : Bool := headerEndings.any (·.isSuffixOf name)

def isHeader (name : String) : Bool :=
  endsAsHeader name.toList
    || (name.toList.getLast? == some '\n' && endsAsHeader name.toList.dropLast)

/-- The headers below a directory that has the given path, in no particular order. -/
def Directory.headers (path : String) : Directory → List String
  | .empty => []
  | .file name rest =>
    if isHeader name then Path.inside path name :: rest.headers path else rest.headers path
  | .folder name inner rest => inner.headers (Path.inside path name) ++ rest.headers path

/-- The headers below a path in order, or the path itself if it is a header. -/
def Disk.headers (disk : Disk) (path : String) : List String :=
  match disk.entry? path with
  | none => []
  | some .file => if isHeader path then [path] else []
  | some (.folder inner) => (inner.headers path).mergeSort fun a b => decide (a ≤ b)

end SymbolIndex
