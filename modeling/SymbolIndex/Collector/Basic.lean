import SymbolIndex.Database.Register
import SymbolIndex.Path
import SymbolIndex.Text.Quoted
import SymbolIndex.Tree.Walk
import SymbolIndex.TypeRef.Resolve

/-!
# The collector

A collector fills a database from the declarations of a walk. It looks only at files below its
roots, or at all files if it has none. Between two events it remembers at most one class template
and one function template whose parameters may still get a default.
-/

namespace SymbolIndex

/-- A signature in the database, by where it stands. -/
inductive SignatureRef where
  | constructorOf (owner : String) (index : Nat)
  | methodOf (owner : String) (index : Nat)
  | function (index : Nat)
  deriving DecidableEq, Repr

/-- A template whose parameters are being read, from within a scope. The last parameter's place is
known once there is one. -/
structure OpenTemplate where
  target : SignatureRef
  scope : List String
  lastParameter : Option Place := none
  deriving DecidableEq, Repr

structure Collector where
  db : Database := {}
  /-- The directory that relative paths start from. -/
  base : String
  roots : List String := []
  /-- The class template whose last parameter may get a default. -/
  openClass : Option String := none
  openFunction : Option OpenTemplate := none
  deriving DecidableEq, Repr

/-- A declaration's type is broken: the parser gave none for a slot of this name. -/
structure BrokenType where
  slot : String
  deriving DecidableEq, Repr

def BrokenType.message (broken : BrokenType) : String :=
  "cannot build parameter " ++ Text.quoted broken.slot ++ " from an invalid type"

/-- A slot of a reported type, resolved from within a scope. -/
def resolveParameter (type : TypeTree) (table : List TypeRef) (name : String)
    (scope : List String) : Except BrokenType Parameter :=
  if type.isInvalid then .error ⟨name⟩
  else .ok (.ofType ((TypeSource.reported type).resolve table scope) name)

/-- What comes of one event. -/
structure Outcome where
  collector : Collector
  notes : List Note := []
  answer : Except BrokenType Directive

namespace Collector

/-- A collector over a database, with the given directories as roots. -/
def start (base : String) (directories : List String) (db : Database) : Collector :=
  { db := db, base := base, roots := directories.map (Path.normalize base) }

def addRoot (c : Collector) (directory : String) : Collector :=
  { c with roots := c.roots ++ [Path.normalize c.base directory] }

/-- The first root that a path stands under. -/
def rootOf? (c : Collector) (path : String) : Option String := c.roots.find? (Path.isUnder · path)

def includes (c : Collector) (path : String) : Bool := c.roots.isEmpty || (c.rootOf? path).isSome

/-- A path seen from the root it stands under. -/
def includePath (c : Collector) (path : String) : String :=
  match c.rootOf? path with
  | some root => Path.relative c.base root path
  | none => path

/-- The file a declaration stands in, empty if it has none. -/
def fileOf (c : Collector) (decl : Decl) : String :=
  (decl.file.map (Path.normalize c.base)).getD ""

/-- An event that changes nothing but the database. -/
def answer (c : Collector) (db : Database) (directive : Directive) (notes : List Note) : Outcome :=
  { collector := { c with db := db }, notes := notes, answer := .ok directive }

end Collector

end SymbolIndex
