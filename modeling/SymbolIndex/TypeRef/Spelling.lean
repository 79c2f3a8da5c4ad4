import SymbolIndex.Text.Word
import SymbolIndex.Tree.TypeTree
import SymbolIndex.TypeRef.Basic

/-!
# Reading a written type

A spelling such as `const N::S **` is read from its end: pointers, references and `const` come off,
and what is left without keywords is a builtin type or a scoped name.
-/

namespace SymbolIndex

/-! ## Keywords -/

/-- Words of a type that are not part of its name. -/
def typeKeywords : List (List Char) :=
  ["const".toList, "volatile".toList, "struct".toList, "class".toList, "enum".toList,
   "union".toList, "typename".toList]

/-- A word as it is kept: a keyword leaves a space. -/
def keepWord (word : List Char) : List Char := if typeKeywords.contains word then [' '] else word

def maskKeywordsFrom (word : List Char) : List Char → List Char
  | [] => keepWord word
  | c :: s =>
    if Text.isWord c then maskKeywordsFrom (word ++ [c]) s
    else keepWord word ++ c :: maskKeywordsFrom [] s

def stripKeywordChars (s : List Char) : List Char :=
  [' '].intercalate (Text.pieces (maskKeywordsFrom [] s))

/-- The text without its type keywords, single-spaced. -/
def stripKeywords (text : String) : String := String.ofList (stripKeywordChars text.toList)

/-! ## Template arguments -/

/-- Split `Box<int>` into `Box` and `<int>`. The arguments lose their spaces. -/
def splitTemplateArguments (name : String) : String × String :=
  match name.toList.dropWhile (· != '<') with
  | [] => (name, "")
  | arguments =>
    (String.ofList (Text.trim (name.toList.takeWhile (· != '<'))),
     String.ofList (arguments.filter (· != ' ')))

def withoutTemplateArguments (name : String) : String := (splitTemplateArguments name).1

/-- Scope path, name and template arguments of a scoped name. -/
def readScopedName (text : String) : List String × String × String :=
  let parts := Scope.split text
  (parts.dropLast.map withoutTemplateArguments, splitTemplateArguments (parts.getLast?.getD ""))

/-! ## Trailing declarators -/

/-- Pointers and references at the end of a spelling, and the text before them. -/
structure Peeled where
  pointers : Nat := 0
  references : Nat := 0
  rest : List Char
  deriving DecidableEq, Repr

/-- Peel the end off a spelling that is given in reverse. A trailing `const` is dropped if it is a
word of its own. -/
def peelReversed : List Char → Peeled
  | [] => { rest := [] }
  | '*' :: s => let p := peelReversed s; { p with pointers := p.pointers + 1 }
  | '&' :: '&' :: s => let p := peelReversed s; { p with references := p.references + 1 }
  | '&' :: s => let p := peelReversed s; { p with references := p.references + 1 }
  | 't' :: 's' :: 'n' :: 'o' :: 'c' :: s =>
    if (s.head?.map Text.isWord).getD false then { rest := 't' :: 's' :: 'n' :: 'o' :: 'c' :: s }
    else peelReversed s
  | c :: s => if Text.isBlank c then peelReversed s else { rest := c :: s }

def peel (s : List Char) : Peeled :=
  let p := peelReversed s.reverse
  { p with rest := p.rest.reverse }

namespace TypeRef

/-- The type that a spelling names; nothing is looked up yet. -/
def ofSpelling (spelling : String) : TypeRef :=
  let peeled := peel (Text.trim spelling.toList)
  let base := stripKeywords (String.ofList peeled.rest)
  let type : TypeRef :=
    { rawName := spelling
      isConst := (Text.words spelling.toList).contains "const".toList
      pointers := peeled.pointers
      references := peeled.references }
  if Builtin.names.contains base then
    { type with name := base, fullName := base, kind := .builtin }
  else
    let (scopePath, name, arguments) := readScopedName base
    { type with name := name, scopePath := scopePath, templateArguments := arguments }

end TypeRef

end SymbolIndex
