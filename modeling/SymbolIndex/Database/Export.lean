import SymbolIndex.Database.Basic
import SymbolIndex.Json.Basic

/-!
# The database as JSON

Every list is in the order of registration, and every record's members have a fixed order.
-/

namespace SymbolIndex

def Json.strings (items : List String) : Json := .list (items.map .str)

def Json.ofOption (value : Option String) : Json := value.elim .null .str

namespace Parameter

def members (param : Parameter) : List (String × Json) :=
  [("name", .str param.name), ("type", .str param.typeName), ("is_const", .bool param.isConst),
   ("pointer_depth", .int param.pointers), ("reference_depth", .int param.references),
   ("spelling", .str param.typeText)]
  ++ param.typeAlias.elim [] fun name => [("type_alias", .str name)]

def toJson (param : Parameter) : Json := .object param.members

end Parameter

def Field.toJson (field : Field) : Json :=
  .object (field.members
    ++ [("is_static", .bool field.isStatic), ("visibility", .str field.visibility.word)])

def TemplateParameter.toJson (param : TemplateParameter) : Json :=
  .object [("name", .str param.name), ("type", .str param.sort),
    ("default", Json.ofOption param.default)]

def Signature.members (signature : Signature) : List (String × Json) :=
  [("return_type", signature.result.elim .null Parameter.toJson),
   ("params", .list (signature.params.map Parameter.toJson)),
   ("template_parameters", .list (signature.templateParams.map TemplateParameter.toJson)),
   ("is_variadic", .bool signature.isVariadic)]

def Method.toJson (method : Method) : Json :=
  .object ([("name", .str method.name), ("is_static", .bool method.isStatic),
    ("is_virtual", .bool method.isVirtual), ("is_pure_virtual", .bool method.isPureVirtual),
    ("is_const", .bool method.isConst), ("visibility", .str method.visibility.word)]
    ++ method.members)

def FreeFunction.toJson (function : FreeFunction) : Json :=
  .object ([("name", .str function.name), ("full_name", .str function.fullName),
    ("from_file", .str function.fromFile), ("include_path", .str function.includePath)]
    ++ function.members)

def Class.toJson (c : Class) : Json :=
  .object [("name", .str c.name), ("full_name", .str c.fullName), ("kind", .str c.key.word),
    ("from_file", .str c.fromFile), ("include_path", .str c.includePath),
    ("bases", Json.strings c.bases), ("known_bases", Json.strings c.knownBases),
    ("template_parameters", .list (c.templateParams.map TemplateParameter.toJson)),
    ("constructors", .list (c.constructors.map Method.toJson)),
    ("methods", .list (c.methods.map Method.toJson)),
    ("fields", .list (c.fields.map Field.toJson))]

def Enum.toJson (e : Enum) : Json :=
  .object [("name", .str e.name), ("full_name", .str e.fullName), ("from_file", .str e.fromFile),
    ("constants", .object (e.constants.map fun entry => (entry.1, .int entry.2)))]

/-- An entry of the type table. -/
def TypeRef.toJson (type : TypeRef) : Json :=
  .object [("name", .str type.name), ("scope", Json.strings type.scopePath),
    ("full_name", .str type.canonicalName), ("kind", .str type.kind.word),
    ("is_const", .bool type.isConst), ("pointer_depth", .int type.pointers),
    ("reference_depth", .int type.references), ("best_effort", .bool type.bestEffort)]

namespace Database

def toJson (db : Database) : Json :=
  .object [("namespaces", Json.strings (db.namespaces.map NamespaceEntry.fullName)),
    ("classes", .list (db.classes.map (·.record.toJson))),
    ("enums", .list (db.enums.map (·.record.toJson))),
    ("functions", .list (db.functions.map FreeFunction.toJson)),
    ("types", .list (db.types.map TypeRef.toJson))]

/-- The layout of a database that is written out. -/
def standardLayout : Json.Layout := .block 2

def toText (db : Database) : String := db.toJson.render standardLayout

end Database

end SymbolIndex
