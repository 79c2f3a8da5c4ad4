import SymbolIndex.Symbol.Basic
import SymbolIndex.Tree.Site

/-!
# The symbol database

All records of a run in the order of their arrival, each scope with the places it was declared at.
Classes, namespaces and enums have a full name of their own; functions may share one.
-/

namespace SymbolIndex

structure NamespaceEntry where
  ns : Namespace
  places : List Place
  deriving DecidableEq, Repr

structure ClassEntry where
  record : Class
  access : Access
  places : List Place
  deriving DecidableEq, Repr

structure EnumEntry where
  record : Enum
  place : Place
  deriving DecidableEq, Repr

namespace NamespaceEntry

def fullName (entry : NamespaceEntry) : String := entry.ns.fullName

def declaredAt (entry : NamespaceEntry) (place : Place) : Bool := entry.places.any (place.same ·)

end NamespaceEntry

namespace ClassEntry

def fullName (entry : ClassEntry) : String := entry.record.fullName

def declaredAt (entry : ClassEntry) (place : Place) : Bool := entry.places.any (place.same ·)

end ClassEntry

namespace EnumEntry

def fullName (entry : EnumEntry) : String := entry.record.fullName

def declaredAt (entry : EnumEntry) (place : Place) : Bool := place.same entry.place

end EnumEntry

structure Database where
  types : List TypeRef := []
  namespaces : List NamespaceEntry := []
  classes : List ClassEntry := []
  enums : List EnumEntry := []
  functions : List FreeFunction := []
  deriving DecidableEq, Repr

namespace Database

/-- How many records of each sort there are, in the order they are reported. -/
def counts (db : Database) : List (String × Nat) :=
  [("types", db.types.length), ("classes", db.classes.length), ("enums", db.enums.length),
   ("functions", db.functions.length)]

/-! ## Look-ups -/

def findClass? (db : Database) (fullName : String) : Option ClassEntry :=
  db.classes.find? (·.fullName == fullName)

def findNamespace? (db : Database) (fullName : String) : Option NamespaceEntry :=
  db.namespaces.find? (·.fullName == fullName)

def findEnum? (db : Database) (fullName : String) : Option EnumEntry :=
  db.enums.find? (·.fullName == fullName)

def findFunction? (db : Database) (fullName : String) : Option FreeFunction :=
  db.functions.find? (·.fullName == fullName)

/-- The record of a full name: a class, else a namespace, an enum, or the first function. -/
def findSymbol? (db : Database) (fullName : String) : Option Symbol :=
  (db.findClass? fullName).map (.ofClass ·.record)
    <|> (db.findNamespace? fullName).map (.ofNamespace ·.ns)
    <|> (db.findEnum? fullName).map (.ofEnum ·.record)
    <|> (db.findFunction? fullName).map .ofFunction

def classAt? (db : Database) (place : Place) : Option ClassEntry :=
  db.classes.find? (·.declaredAt place)

def namespaceAt? (db : Database) (place : Place) : Option NamespaceEntry :=
  db.namespaces.find? (·.declaredAt place)

def enumAt? (db : Database) (place : Place) : Option EnumEntry :=
  db.enums.find? (·.declaredAt place)

/-- The full name of the scope that the first place of a chain opens. The node of a whole file is the
global scope with the empty name, and a linkage specification takes the scope around it. -/
def scopeName? (db : Database) : List Place → Option String
  | [] => none
  | place :: outer =>
    if place.kind = .sourceUnit then some ""
    else if place.kind = .linkageSpec then db.scopeName? outer
    else
      (db.namespaceAt? place).map NamespaceEntry.fullName
        <|> (db.classAt? place).map ClassEntry.fullName

/-- The class that a name written in a scope means. A rooted name is taken as it stands; any other
is tried in the scope itself and then outward. -/
def classLike? (db : Database) (name scope : String) : Option ClassEntry :=
  if "::".toList.isPrefixOf name.toList then db.findClass? name
  else
    (Scope.outward (Scope.split scope)).findSome? fun parts =>
      db.findClass? (Scope.join parts ++ "::" ++ name)

end Database

/-- The namespace, class or enum that a place declares. -/
inductive ScopeEntry where
  | ofNamespace (entry : NamespaceEntry)
  | ofClass (entry : ClassEntry)
  | ofEnum (entry : EnumEntry)

def Database.entryAt? (db : Database) (place : Place) : Option ScopeEntry :=
  (db.namespaceAt? place).map .ofNamespace
    <|> (db.classAt? place).map .ofClass
    <|> (db.enumAt? place).map .ofEnum

end SymbolIndex
