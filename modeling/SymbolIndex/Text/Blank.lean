import SymbolIndex.Text.Range

/-!
# Blanks

White space of Unicode together with the separator controls U+001C to U+001F. Trimming and
splitting into words go by this class.
-/

namespace SymbolIndex.Text

def blankRanges : List (Nat × Nat) :=
  [(0x9, 0xD), (0x1C, 0x20), (0x85, 0x85), (0xA0, 0xA0), (0x1680, 0x1680), (0x2000, 0x200A),
   (0x2028, 0x2029), (0x202F, 0x202F), (0x205F, 0x205F), (0x3000, 0x3000)]

def isBlank (c : Char) : Bool := inRanges blankRanges c

def trimStart (s : List Char) : List Char := s.dropWhile isBlank

def trimEnd (s : List Char) : List Char := (trimStart s.reverse).reverse

def trim (s : List Char) : List Char := trimEnd (trimStart s)

/-- A finished run, if it holds anything. -/
def finish (run : List Char) : List (List Char) := if run.isEmpty then [] else [run]

/-- The maximal runs of characters with property `p`, where `run` has been read already. -/
def runsFrom (p : Char → Bool) (run : List Char) : List Char → List (List Char)
  | [] => finish run
  | c :: s => if p c then runsFrom p (run ++ [c]) s else finish run ++ runsFrom p [] s

/-- The maximal runs of characters with property `p`, in order. -/
def runs (p : Char → Bool) (s : List Char) : List (List Char) := runsFrom p [] s

/-- The pieces between blanks. -/
def pieces (s : List Char) : List (List Char) := runs (fun c => !isBlank c) s

def trimmed (s : String) : String := String.ofList (trim s.toList)

end SymbolIndex.Text
