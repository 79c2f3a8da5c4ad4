import SymbolIndex.Frontend.Includes

/-!
# Finding the parsing library

The library that loads by default is taken if there is one. Otherwise the platform's usual places
are searched once, and the first file found there is used from then on.
-/

namespace SymbolIndex

/-! ## Patterns -/

/-- What may be left of a text after a star: the star takes any run without a slash. -/
def afterStar : List Char → List (List Char)
  | [] => [[]]
  | c :: s => if c == '/' then [c :: s] else (c :: s) :: afterStar s

/-- A text matches a pattern in which a star stands for any run without a slash. -/
def matchesPattern : List Char → List Char → Bool
  | [], s => s.isEmpty
  | '*' :: pattern, s => (afterStar s).any (matchesPattern pattern)
  | c :: pattern, s =>
    match s with
    | [] => false
    | d :: s => c == d && matchesPattern pattern s

/-- Where the library may stand, preferred places first. -/
def libraryPatterns : Platform → List String
  | .darwin =>
    ["/opt/homebrew/opt/llvm/lib/libclang.dylib",
     "/opt/homebrew/Cellar/llvm/*/lib/libclang.dylib",
     "/usr/local/opt/llvm/lib/libclang.dylib",
     "/usr/local/Cellar/llvm/*/lib/libclang.dylib",
     "/Library/Developer/CommandLineTools/usr/lib/libclang.dylib",
     "/Applications/Xcode.app/Contents/Developer/Toolchains/XcodeDefault.xctoolchain/usr/lib/libclang.dylib"]
  | .linux =>
    ["/usr/lib/llvm-*/lib/libclang.so*",
     "/usr/lib/x86_64-linux-gnu/libclang-*.so*",
     "/usr/lib64/libclang.so",
     "/usr/lib/libclang.so",
     "/usr/local/lib/libclang.so"]
  | .windows =>
    ["C:\\Program Files\\LLVM\\bin\\libclang.dll",
     "C:\\Program Files (x86)\\LLVM\\bin\\libclang.dll"]
  | .other => []

/-- The files that match a pattern, last in order first. -/
def matchingFiles (files : List String) (pattern : String) : List String :=
  (files.filter fun file => matchesPattern pattern.toList file.toList).mergeSort
    fun a b => decide (b ≤ a)

/-- Append what is not there yet. -/
def appendNew (found more : List String) : List String :=
  more.foldl (fun found file => if found.contains file then found else found ++ [file]) found

/-- The library files among the existing ones, preferred ones first. -/
def libraryFiles (platform : Platform) (files : List String) : List String :=
  (libraryPatterns platform).foldl (fun found p => appendNew found (matchingFiles files p)) []

/-! ## Choosing -/

/-- Whether the search has been made, and the file that it chose. -/
structure LibraryChoice where
  searched : Bool := false
  file : Option String := none
  deriving DecidableEq, Repr

/-- Whether the library can be loaded. `loads none` is the default look-up. -/
def LibraryChoice.available (choice : LibraryChoice) (loads : Option String → Bool)
    (candidates : List String) : LibraryChoice × Bool × List Note :=
  if choice.searched then (choice, loads choice.file, [])
  else if loads choice.file then ({ choice with searched := true }, true, [])
  else
    match candidates with
    | [] => ({ choice with searched := true }, false, [])
    | file :: _ => (⟨true, some file⟩, loads (some file), [.libraryChosen file])

end SymbolIndex
