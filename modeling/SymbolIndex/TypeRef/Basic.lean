import SymbolIndex.Scope

/-!
# Type references

A type reference is what a written type comes down to: a name with its scope, counts of pointers and
references, and what the name was found to be. The type table of a database is a list of these too,
one for each class, enum and alias seen so far.
-/

namespace SymbolIndex

inductive TypeKind where
  | builtin
  | structType
  | classType
  | enumType
  | aliasType
  | unresolved
  deriving DecidableEq, Repr

def TypeKind.word : TypeKind → String
  | builtin => "primitive"
  | structType => "struct"
  | classType => "class"
  | enumType => "enum"
  | aliasType => "typedef"
  | unresolved => "unresolved"

/-- A name under pointers and references, with `const` in front if it is constant. A negative depth
counts as zero. -/
def decorate (isConst : Bool) (name : String) (pointers references : Int) : String :=
  (if isConst then "const " else "") ++ name ++ String.ofList (List.replicate pointers.toNat '*')
    ++ String.ofList (List.replicate references.toNat '&')

structure TypeRef where
  rawName : String := ""
  name : String := ""
  scopePath : List String := []
  fullName : String := ""
  isConst : Bool := false
  pointers : Int := 0
  references : Int := 0
  kind : TypeKind := .unresolved
  templateArguments : String := ""
  bestEffort : Bool := false
  deriving DecidableEq, Repr

namespace TypeRef

def isResolved (type : TypeRef) : Bool := type.kind != .unresolved

/-- Scope and name joined, for a type that nothing matched. -/
def label (type : TypeRef) : String := Scope.join (type.scopePath ++ [type.name])

/-- The full name, or else the label, with the template arguments. -/
def canonicalName (type : TypeRef) : String :=
  (if type.fullName = "" then type.label else type.fullName) ++ type.templateArguments

def text (type : TypeRef) : String :=
  decorate type.isConst type.canonicalName type.pointers type.references

/-- Same scope, name and full name; qualifiers do not count. -/
def comparable (a b : TypeRef) : Bool :=
  a.scopePath == b.scopePath && a.name == b.name && a.fullName == b.fullName

/-- Entries of a type table that differ in none of their names. -/
def sameEntry (a b : TypeRef) : Bool :=
  a.scopePath == b.scopePath && a.rawName == b.rawName && a.name == b.name
    && a.fullName == b.fullName

/-- Put the qualifiers of another type on top: depths add up and `const` on either side counts. -/
def addLayer (type layer : TypeRef) : TypeRef :=
  { type with
    isConst := type.isConst || layer.isConst
    pointers := type.pointers + layer.pointers
    references := type.references + layer.references }

/-- Put several types' qualifiers on top of one. -/
def addLayers (type : TypeRef) (layers : List TypeRef) : TypeRef := layers.foldl addLayer type

end TypeRef

end SymbolIndex
