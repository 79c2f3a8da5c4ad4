import SymbolIndex.Database.Basic
import SymbolIndex.Note

/-!
# Adding to the database

Records are only added, never taken away. A class that is declared again keeps its record: while it
is empty it takes the new origin and wants its members visited, afterwards it only remembers the
place.
-/

namespace SymbolIndex.Database

def addNamespace (db : Database) (name fullName : String) (place : Place) : Database :=
  if db.namespaces.any (·.fullName == fullName) then
    { db with
      namespaces := db.namespaces.map fun entry =>
        if entry.fullName = fullName then { entry with places := entry.places ++ [place] }
        else entry }
  else { db with namespaces := db.namespaces ++ [⟨⟨name, fullName⟩, [place]⟩] }

/-- Change the class of a full name. -/
def updateClass (db : Database) (fullName : String) (change : ClassEntry → ClassEntry) : Database :=
  { db with
    classes := db.classes.map fun entry => if entry.fullName = fullName then change entry else entry }

/-- The table entry of a declaration that stands under its own name. -/
def declaredType (name fullName : String) (kind : TypeKind) : TypeRef :=
  { rawName := name, name := name, scopePath := Scope.split (Scope.parent fullName),
    fullName := fullName, kind := kind }

/-- What is left to do after a class has been added. -/
structure ClassAdded where
  db : Database
  entersMembers : Bool
  isNew : Bool
  notes : List Note

/-- A known class, declared once more at `place`. -/
def redeclare (entry : ClassEntry) (c : Class) (place : Place) (access : Access) : ClassEntry :=
  if entry.record.isEmpty then
    { record := { entry.record with fromFile := c.fromFile, includePath := c.includePath }
      access := access
      places := entry.places ++ [place] }
  else { entry with places := entry.places ++ [place] }

def addClass (db : Database) (c : Class) (place : Place) (access : Access) : ClassAdded :=
  match db.findClass? c.fullName with
  | some entry =>
    { db := db.updateClass c.fullName (redeclare · c place access)
      entersMembers := entry.record.isEmpty
      isNew := false
      notes := if entry.record.isEmpty then [] else [.repeatedClass c.fullName] }
  | none =>
    { db :=
        { db with
          classes := db.classes ++ [⟨c, access, [place]⟩]
          types := db.types ++ [declaredType c.name c.fullName c.key.typeKind] }
      entersMembers := true
      isNew := true
      notes := [] }

/-- Add an enum, unless its full name is known. -/
def addEnum (db : Database) (e : Enum) (place : Place) : Database :=
  if db.enums.any (·.fullName == e.fullName) then db
  else
    { db with
      enums := db.enums ++ [⟨e, place⟩]
      types := db.types ++ [declaredType e.name e.fullName .enumType] }

/-- Give a constant to the first enum declared at a place. -/
def addConstantTo (place : Place) (name : String) (value : Int) : List EnumEntry → List EnumEntry
  | [] => []
  | entry :: rest =>
    if entry.declaredAt place then
      { entry with
        record := { entry.record with constants := putConstant name value entry.record.constants } }
        :: rest
    else entry :: addConstantTo place name value rest

def addConstant (db : Database) (place : Place) (name : String) (value : Int) : Database :=
  { db with enums := addConstantTo place name value db.enums }

def knowsType (db : Database) (type : TypeRef) : Bool := db.types.any (type.sameEntry ·)

/-- Add an entry to the type table, unless the same one is there. -/
def addType (db : Database) (type : TypeRef) : Database :=
  if db.knowsType type then db else { db with types := db.types ++ [type] }

/-- A function of this full name with these parameters is there. -/
def knowsFunction (db : Database) (function : FreeFunction) : Bool :=
  db.functions.any fun known =>
    known.fullName == function.fullName && known.sameParams function.toSignature

/-- Add a function, unless it is the same function once more. Overloads are kept. -/
def addFunction (db : Database) (function : FreeFunction) : Database :=
  if db.knowsFunction function then db else { db with functions := db.functions ++ [function] }

end SymbolIndex.Database
