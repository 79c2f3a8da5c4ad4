import SymbolIndex.Note
import SymbolIndex.Text.Lines

/-!
# System include directories

The system compiler prints the directories it searches when it is run verbosely on no input. It is
run at most once for each language, and a failing run stands for an empty list.
-/

namespace SymbolIndex

inductive Platform where
  | linux
  | darwin
  | windows
  | other
  deriving DecidableEq, Repr

/-- What running the compiler gives: the text of its error output, or no run at all. -/
inductive CompilerReply where
  | printed (text : String)
  | failed
  deriving DecidableEq, Repr

def searchListStart : List Char := "#include <...> search starts here:".toList

def searchListEnd : List Char := "End of search list".toList

/-- The directory that a line of the search list names, if it names one. -/
def searchListEntry (line : List Char) : Option String :=
  let path := Text.trim line
  if path.isEmpty || "(framework directory)".toList.isSuffixOf path then none
  else some (String.ofList path)

/-- The directories of the search list, where `inside` says that it has begun. -/
def readSearchLines (inside : Bool) : List (List Char) → List String
  | [] => []
  | line :: lines =>
    if Text.occursIn searchListStart line then readSearchLines true lines
    else if searchListEnd.isPrefixOf line then []
    else if inside then (searchListEntry line).toList ++ readSearchLines true lines
    else readSearchLines false lines

/-- The directories that a verbose run of the compiler lists. -/
def readSearchList (text : String) : List String := readSearchLines false (Text.lines text.toList)

/-- The run that lists the search directories of C++, or of C. -/
def searchListCommand (platform : Platform) (cplus : Bool) : List String :=
  ["clang", "-v", "-x", if cplus then "c++" else "c", "-E",
   if platform = .windows then "NUL" else "/dev/null"]

/-- What is known of the system's include directories, and the runs made to learn it. -/
structure Includes where
  cplus : Option (List String) := none
  plain : Option (List String) := none
  runs : List (List String) := []
  deriving DecidableEq, Repr

namespace Includes

def known? (includes : Includes) (cplus : Bool) : Option (List String) :=
  if cplus then includes.cplus else includes.plain

def learn (includes : Includes) (cplus : Bool) (arguments : List String) : Includes :=
  if cplus then { includes with cplus := some arguments }
  else { includes with plain := some arguments }

/-- The include directories of a language as arguments. -/
def arguments (includes : Includes) (platform : Platform) (reply : CompilerReply) (cplus : Bool) :
    Includes × List String × List Note :=
  match includes.known? cplus with
  | some arguments => (includes, arguments, [])
  | none =>
    let (directories, notes) :=
      match reply with
      | .printed text => (readSearchList text, [])
      | .failed => ([], [Note.includesUndetected])
    let arguments := directories.map ("-isystem" ++ ·)
    let includes := { includes with runs := includes.runs ++ [searchListCommand platform cplus] }
    (includes.learn cplus arguments, arguments, notes)

end Includes

end SymbolIndex
