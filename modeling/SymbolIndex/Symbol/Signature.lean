import SymbolIndex.TypeRef.Basic
import SymbolIndex.Tree.Kind

/-!
# Parameters, fields and what can be called

The records that hold resolved types. A parameter stands for its type: two are the same when their
types read the same, whatever their names. A field stands for its name, and a method for its name
and its parameters.
-/

namespace SymbolIndex

/-- Two lists agree pairwise and in number. -/
def pairwiseSame {α : Type} (same : α → α → Bool) : List α → List α → Bool
  | [], [] => true
  | a :: as, b :: bs => same a b && pairwiseSame same as bs
  | _, _ => false

structure Parameter where
  typeName : String
  name : String := ""
  isConst : Bool := false
  pointers : Int := 0
  references : Int := 0
  typeAlias : Option String := none
  deriving DecidableEq, Repr

namespace Parameter

/-- A slot of a resolved type. The alias is kept if the type was written through one. -/
def ofType (type : TypeRef) (name : String) : Parameter :=
  { typeName := type.canonicalName
    name := name
    isConst := type.isConst
    pointers := type.pointers
    references := type.references
    typeAlias := if type.kind = .aliasType then some type.name else none }

def typeText (param : Parameter) : String :=
  decorate param.isConst param.typeName param.pointers param.references

def text (param : Parameter) : String :=
  if param.name = "" then param.typeText else param.typeText ++ " " ++ param.name

def same (a b : Parameter) : Bool := a.typeText == b.typeText

end Parameter

structure Field extends Parameter where
  isStatic : Bool := false
  visibility : Visibility := .everyone
  deriving DecidableEq, Repr

def Field.same (a b : Field) : Bool := a.name == b.name

structure TemplateParameter where
  name : String
  sort : String := "typename"
  default : Option String := none
  deriving DecidableEq, Repr

def TemplateParameter.text (param : TemplateParameter) : String :=
  match param.default with
  | none | some "" => param.sort ++ " " ++ param.name
  | some value => param.sort ++ " " ++ param.name ++ " = " ++ value

/-- What methods and free functions have in common. A missing result is `void`, or a constructor's. -/
structure Signature where
  result : Option Parameter := none
  params : List Parameter := []
  templateParams : List TemplateParameter := []
  isVariadic : Bool := false
  deriving DecidableEq, Repr

namespace Signature

def isTemplate (signature : Signature) : Bool := !signature.templateParams.isEmpty

/-- The parameters agree pairwise and in number. -/
def sameParams (a b : Signature) : Bool := pairwiseSame Parameter.same a.params b.params

/-- The parameter list in parentheses. -/
def paramsText (signature : Signature) : String :=
  let params := ", ".intercalate (signature.params.map Parameter.text)
  let params :=
    if signature.isVariadic then if params = "" then "..." else params ++ ", ..." else params
  "(" ++ params ++ ")"

/-- The result's type and a space, or `absent` if there is no result. -/
def resultText (signature : Signature) (absent : String) : String :=
  match signature.result with
  | none => absent
  | some result => result.typeText ++ " "

end Signature

/-- A member function or constructor. -/
structure Method extends Signature where
  name : String := ""
  isStatic : Bool := false
  isVirtual : Bool := false
  isPureVirtual : Bool := false
  isConst : Bool := false
  visibility : Visibility := .everyone
  deriving DecidableEq, Repr

namespace Method

def same (a b : Method) : Bool := a.name == b.name && a.sameParams b.toSignature

def text (method : Method) : String :=
  method.resultText "" ++ method.name ++ method.paramsText ++ if method.isConst then " const" else ""

end Method

/-- A function declared outside every class. -/
structure FreeFunction extends Signature where
  name : String := ""
  fullName : String := ""
  fromFile : String := ""
  includePath : String := ""
  deriving DecidableEq, Repr

def FreeFunction.text (function : FreeFunction) : String :=
  function.resultText "void " ++ function.fullName ++ function.paramsText

end SymbolIndex
