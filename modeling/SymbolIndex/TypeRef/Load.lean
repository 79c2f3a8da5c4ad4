import SymbolIndex.TypeRef.Spelling

/-!
# Reading a reported type

The layers of a reported type are counted, and the type below them is named: a builtin by its own
name, an array or function by its spelling, and a named type by its declaration if that is known and
by its spelling otherwise.
-/

namespace SymbolIndex

/-- The declaration of a named type, if it is known and has a name. -/
def usableDeclaration (declaration : Option Site) : Option Site :=
  declaration.filter fun site => site.kind != .noDeclaration && site.spelling != ""

/-- Scope path and name of a declaration. A template parameter has no scope. -/
def declaredName (site : Site) : List String × String :=
  (if site.kind = .templateTypeParameter then [] else site.scopePath, site.spelling)

namespace TypeTree

/-- The type below all layers, named. -/
def core : TypeTree → TypeRef
  | builtin written type =>
    { name := type.name, fullName := type.name, isConst := written.isConst, kind := .builtin }
  | declarator written =>
    let text := stripKeywords written.spelling
    { name := text, fullName := text, isConst := written.isConst, bestEffort := true }
  | named written _ declaration =>
    let (scopePath, name, arguments) := readScopedName (stripKeywords written.spelling)
    let (scopePath, name) := ((usableDeclaration declaration).map declaredName).getD (scopePath, name)
    { name := name, scopePath := scopePath, isConst := written.isConst,
      templateArguments := arguments }
  | pointer written pointee =>
    let type := pointee.core
    { type with isConst := written.isConst || type.isConst, pointers := type.pointers + 1 }
  | reference written _ referent =>
    let type := referent.core
    { type with isConst := written.isConst || type.isConst, references := type.references + 1 }
  | elaborated written inner =>
    let type := inner.core
    { type with isConst := written.isConst || type.isConst }

end TypeTree

namespace TypeRef

/-- The type that a reported type stands for; nothing is looked up yet. -/
def ofTree (tree : TypeTree) : TypeRef := { tree.core with rawName := tree.spelling }

end TypeRef

end SymbolIndex
