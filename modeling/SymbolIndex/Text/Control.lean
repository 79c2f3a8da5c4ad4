/-!
# Control sequences

A control sequence tells a terminal what to do: an escape character and an opening bracket,
parameters made of digits, `;` and `?`, and one letter that ends it. `plain` is the text without
them. What is left is not looked through again, and a sequence that no letter ends is kept.
-/

namespace SymbolIndex.Text

def escapeMark : Char := '\x1b'

def isSequenceParameter (c : Char) : Bool := c.isDigit || c == ';' || c == '?'

/-- The character goes on with the sequence whose start has been held back. -/
def extendsSequence (held : List Char) (c : Char) : Bool :=
  match held with
  | [] => c == escapeMark
  | [_] => c == '['
  | _ => isSequenceParameter c

/-- The character ends the sequence whose start has been held back. -/
def endsSequence (held : List Char) (c : Char) : Bool := 2 ≤ held.length && c.isAlpha

def plainFrom (held : List Char) : List Char → List Char
  | [] => held
  | c :: s =>
    if extendsSequence held c then plainFrom (held ++ [c]) s
    else if endsSequence held c then plainFrom [] s
    else if c == escapeMark then held ++ plainFrom [c] s
    else held ++ c :: plainFrom [] s

/-- The text without the control sequences in it. -/
def plain (s : List Char) : List Char := plainFrom [] s

/-- A text without escape characters stays as it is. -/
theorem plain_eq_self : ∀ (s : List Char), escapeMark ∉ s → plain s = s
  | [], _ => rfl
  | c :: s, h => by
    have hc : (c == escapeMark) = false := by
      simp only [beq_eq_false_iff_ne]; rintro rfl; exact h (List.mem_cons_self ..)
    have ih : plainFrom [] s = s := plain_eq_self s fun hs => h (List.mem_cons_of_mem _ hs)
    simp [plain, plainFrom, extendsSequence, endsSequence, hc, ih]

end SymbolIndex.Text
