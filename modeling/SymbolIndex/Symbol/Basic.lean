import SymbolIndex.Symbol.Scoped

/-!
# Symbols

Any of the records of the database, with the relation that compares two of them.
-/

namespace SymbolIndex

inductive Symbol where
  | ofType (type : TypeRef)
  | ofParameter (param : Parameter)
  | ofField (field : Field)
  | ofTemplateParameter (param : TemplateParameter)
  | ofSignature (signature : Signature)
  | ofMethod (method : Method)
  | ofFunction (function : FreeFunction)
  | ofNamespace (ns : Namespace)
  | ofClass (c : Class)
  | ofEnum (e : Enum)

namespace Symbol

/-- Each sort of record by its own relation. A parameter and a field compare as parameters. Functions
and bare signatures have an identity that no other record shares. -/
def same : Symbol → Symbol → Bool
  | .ofType a, .ofType b => a == b
  | .ofParameter a, .ofParameter b => a.same b
  | .ofParameter a, .ofField b => a.same b.toParameter
  | .ofField a, .ofParameter b => a.toParameter.same b
  | .ofField a, .ofField b => a.same b
  | .ofTemplateParameter a, .ofTemplateParameter b => a == b
  | .ofMethod a, .ofMethod b => a.same b
  | .ofNamespace a, .ofNamespace b => a == b
  | .ofClass a, .ofClass b => a.same b
  | .ofEnum a, .ofEnum b => a.same b
  | _, _ => false

/-- The record on one line; a bare signature has no such text. -/
def text? : Symbol → Option String
  | .ofType type => some type.text
  | .ofParameter param => some param.text
  | .ofField field => some field.text
  | .ofTemplateParameter param => some param.text
  | .ofSignature _ => none
  | .ofMethod method => some method.text
  | .ofFunction function => some function.text
  | .ofNamespace ns => some ns.text
  | .ofClass c => some c.text
  | .ofEnum e => some e.text

/-- The full name of a record that has one. -/
def fullName? : Symbol → Option String
  | .ofFunction function => some function.fullName
  | .ofNamespace ns => some ns.fullName
  | .ofClass c => some c.fullName
  | .ofEnum e => some e.fullName
  | _ => none

/-- The scope around a record that has a full name. -/
def enclosing? (symbol : Symbol) : Option String := symbol.fullName?.map Scope.parent

end Symbol

end SymbolIndex
