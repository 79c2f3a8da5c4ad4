import SymbolIndex.Text.Quoted

/-!
# JSON values and their text

Objects keep the order of their members. The text is pure ASCII: every character outside the
printable ASCII range is escaped, by a pair of surrogates where it needs two units.
-/

namespace SymbolIndex

inductive Json where
  | null
  | bool (value : Bool)
  | int (value : Int)
  | str (value : String)
  | list (items : List Json)
  | object (members : List (String × Json))

namespace Json

/-! ## Strings -/

def escapeUnit (unit : Nat) : List Char := '\\' :: 'u' :: Text.hexDigits 4 unit

/-- The two units that stand for a code point beyond the basic plane. -/
def surrogates (code : Nat) : Nat × Nat :=
  let offset := code - 0x10000
  (0xD800 + offset / 0x400, 0xDC00 + offset % 0x400)

def escapeChar (c : Char) : List Char :=
  if c == '"' || c == '\\' then ['\\', c]
  else if 0x20 ≤ c.toNat && c.toNat < 0x7F then [c]
  else if c == '\n' then ['\\', 'n']
  else if c == '\r' then ['\\', 'r']
  else if c == '\t' then ['\\', 't']
  else if c.toNat = 0x08 then ['\\', 'b']
  else if c.toNat = 0x0C then ['\\', 'f']
  else if c.toNat < 0x10000 then escapeUnit c.toNat
  else
    let units := surrogates c.toNat
    escapeUnit units.1 ++ escapeUnit units.2

def quoteChars (s : List Char) : List Char := '"' :: s.flatMap escapeChar ++ ['"']

def quote (s : String) : String := String.ofList (quoteChars s.toList)

/-! ## Layout -/

/-- How nested values are laid out: on one line, or one item a line with so many spaces for each
level. -/
inductive Layout where
  | line
  | block (indent : Nat)
  deriving DecidableEq, Repr

namespace Layout

/-- What stands before an item at a level. -/
def lead (level : Nat) : Layout → String
  | line => ""
  | block indent => "\n" ++ String.ofList (List.replicate (indent * level) ' ')

/-- What stands between two items at a level. -/
def between (level : Nat) (layout : Layout) : String :=
  match layout with
  | line => ", "
  | block _ => "," ++ layout.lead level

end Layout

/-- Items at a level between two brackets. -/
def enclose (layout : Layout) (level : Nat) (left right : String) (items : List String) : String :=
  if items.isEmpty then left ++ right
  else
    left ++ layout.lead (level + 1) ++ (layout.between (level + 1)).intercalate items
      ++ layout.lead level ++ right

mutual
/-- The text of a value that stands at a level. -/
def renderAt (layout : Layout) (level : Nat) : Json → String
  | .null => "null"
  | .bool true => "true"
  | .bool false => "false"
  | .int value => value.repr
  | .str value => quote value
  | .list items => enclose layout level "[" "]" (renderItems layout (level + 1) items)
  | .object members =>
    enclose layout level "\x7b" "\x7d" (renderMembers layout (level + 1) members)

def renderItems (layout : Layout) (level : Nat) : List Json → List String
  | [] => []
  | item :: items => renderAt layout level item :: renderItems layout level items

def renderMembers (layout : Layout) (level : Nat) : List (String × Json) → List String
  | [] => []
  | (key, value) :: members =>
    (quote key ++ ": " ++ renderAt layout level value) :: renderMembers layout level members
end

def render (layout : Layout) (value : Json) : String := renderAt layout 0 value

end Json

end SymbolIndex
