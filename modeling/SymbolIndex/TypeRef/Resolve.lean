import SymbolIndex.TypeRef.Load

/-!
# Resolving a type against a type table

A name is looked up first under the scope it was written with, then under that scope inside the
scope of use, from the innermost outward. An alias adds its own indirection to that of the use. A
type that nothing matches stays unresolved under its label.
-/

namespace SymbolIndex

/-- Scope paths to try for a name written with the path `written` in the scope `scope`, in order. -/
def candidateScopes (written scope : List String) : List (List String) :=
  written :: (Scope.outward scope).dropLast.map (· ++ written)

namespace TypeRef

/-- The table entry that a type refers to from within a scope. -/
def findIn? (type : TypeRef) (table : List TypeRef) (scope : List String) : Option TypeRef :=
  (candidateScopes type.scopePath scope).findSome? fun path =>
    table.find? fun known => known.name == type.name && known.scopePath == path

/-- The type as an entry of the table gives it. -/
def refineBy (type known : TypeRef) : TypeRef :=
  { type with
    scopePath := known.scopePath
    fullName := known.fullName
    kind := known.kind
    templateArguments :=
      if type.templateArguments = "" then known.templateArguments else type.templateArguments
    bestEffort := known.bestEffort }

/-- Resolve a type against a table from within a scope. -/
def resolveIn (type : TypeRef) (table : List TypeRef) (scope : List String) : TypeRef :=
  if type.kind = .builtin then type
  else
    match type.findIn? table scope with
    | none => type
    | some known => (type.refineBy known).addLayer known

end TypeRef

/-- A type as it occurs in a program: as text or as the parser reports it. -/
inductive TypeSource where
  | written (text : String)
  | reported (tree : TypeTree)

namespace TypeSource

def load : TypeSource → TypeRef
  | written text => .ofSpelling text
  | reported tree => .ofTree tree

def resolve (source : TypeSource) (table : List TypeRef) (scope : List String) : TypeRef :=
  source.load.resolveIn table scope

/-- The canonical name of a type, or its label if nothing matches. -/
def solve (source : TypeSource) (table : List TypeRef) (scope : List String) : String :=
  (source.resolve table scope).canonicalName

end TypeSource

end SymbolIndex
