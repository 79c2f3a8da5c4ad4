import SymbolIndex.Text.Blank

/-!
# Lines

A line ends at a line feed, a carriage return or the two together, a vertical tab, a form feed, one
of the separators U+001C to U+001E, or at U+0085, U+2028, U+2029. The end of the text starts no
further line.
-/

namespace SymbolIndex.Text

def lineBreakRanges : List (Nat × Nat) := [(0xA, 0xD), (0x1C, 0x1E), (0x85, 0x85), (0x2028, 0x2029)]

def isLineBreak (c : Char) : Bool := inRanges lineBreakRanges c

def linesFrom (line : List Char) : List Char → List (List Char)
  | [] => finish line
  | '\r' :: '\n' :: s => line :: linesFrom [] s
  | c :: s => if isLineBreak c then line :: linesFrom [] s else linesFrom (line ++ [c]) s

def lines (s : List Char) : List (List Char) := linesFrom [] s

/-- `part` occurs somewhere in the text. -/
def occursIn (part : List Char) : List Char → Bool
  | [] => part.isEmpty
  | c :: s => part.isPrefixOf (c :: s) || occursIn part s

end SymbolIndex.Text
