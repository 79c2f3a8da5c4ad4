import SymbolIndex.Text.Blank

/-!
# Scoped names

A full name is rooted at the global scope and joined with `::`, as in `::ui::Widget`. Splitting
keeps separators inside template brackets, drops blank components and trims the others.
-/

namespace SymbolIndex.Scope

/-- What a character does to the bracket depth. -/
def tilt (c : Char) : Int := if c == '<' then 1 else if c == '>' then -1 else 0

/-- Cut at every `::` outside brackets. The depth is signed, so a stray `>` hides separators until
a `<` makes up for it. -/
def cutFrom (depth : Int) (part : List Char) : List Char → List (List Char)
  | [] => [part]
  | ':' :: ':' :: s =>
    if depth = 0 then part :: cutFrom 0 [] s else cutFrom depth (part ++ [':']) (':' :: s)
  | c :: s => cutFrom (depth + tilt c) (part ++ [c]) s

def splitChars (s : List Char) : List (List Char) :=
  ((cutFrom 0 [] s).map Text.trim).filter fun part => !part.isEmpty

/-- The components of a name, outermost first. -/
def split (name : String) : List String := (splitChars name.toList).map String.ofList

/-- The rooted name with the given components. -/
def join (parts : List String) : String := String.join (parts.map ("::" ++ ·))

/-- The name of the scope around a name, `::` for the global one. -/
def parent (name : String) : String :=
  match (split name).dropLast with
  | [] => "::"
  | parts => join parts

/-- A scope path and the paths around it, innermost first; the last one is the global scope. -/
def outward : List String → List (List String)
  | [] => [[]]
  | part :: parts => (outward parts).map (part :: ·) ++ [[]]

theorem mem_outward (p s : List String) : p ∈ outward s ↔ p <+: s := by
  induction s generalizing p with
  | nil => simp [outward]
  | cons a s ih =>
    cases p with
    | nil => simp [outward]
    | cons b p =>
      simp only [outward, List.mem_append, List.mem_map, List.cons.injEq, List.mem_singleton,
        reduceCtorEq, or_false, List.cons_prefix_cons]
      constructor
      · rintro ⟨q, hq, rfl, rfl⟩
        exact ⟨rfl, (ih q).1 hq⟩
      · rintro ⟨rfl, hp⟩
        exact ⟨p, (ih p).2 hp, rfl, rfl⟩

end SymbolIndex.Scope
