import SymbolIndex.Collector.Basic

/-!
# Template parameters and their defaults

A type reference right after a parameter of a class template is that parameter's default. A function
template takes parameters until something else comes; a type reference below the last parameter is
its default, and a namespace reference may stand before it.
-/

namespace SymbolIndex

/-- Change the last element. -/
def changeLast {α : Type} (change : α → α) : List α → List α
  | [] => []
  | [a] => [change a]
  | a :: b :: rest => a :: changeLast change (b :: rest)

/-- Change the element at a position. -/
def changeAt {α : Type} (change : α → α) : Nat → List α → List α
  | _, [] => []
  | 0, a :: rest => change a :: rest
  | n + 1, a :: rest => a :: changeAt change n rest

/-- Take a default, unless it is the parameter itself at global scope. -/
def TemplateParameter.withDefault (param : TemplateParameter) (value : String) : TemplateParameter :=
  if value = "::" ++ param.name then param else { param with default := some value }

namespace Database

/-- The template parameters of a signature. -/
def templateParams (db : Database) : SignatureRef → List TemplateParameter
  | .constructorOf owner index =>
    ((db.findClass? owner).bind (·.record.constructors[index]?)).elim [] (·.templateParams)
  | .methodOf owner index =>
    ((db.findClass? owner).bind (·.record.methods[index]?)).elim [] (·.templateParams)
  | .function index => db.functions[index]?.elim [] (·.templateParams)

/-- Change the template parameters of a signature. -/
def changeTemplateParams (db : Database) (change : List TemplateParameter → List TemplateParameter) :
    SignatureRef → Database
  | .constructorOf owner index =>
    db.updateClass owner fun entry =>
      { entry with
        record.constructors :=
          changeAt (fun m => { m with templateParams := change m.templateParams }) index
            entry.record.constructors }
  | .methodOf owner index =>
    db.updateClass owner fun entry =>
      { entry with
        record.methods :=
          changeAt (fun m => { m with templateParams := change m.templateParams }) index
            entry.record.methods }
  | .function index =>
    { db with
      functions :=
        changeAt (fun f => { f with templateParams := change f.templateParams }) index db.functions }

/-- Change the template parameters of a class. -/
def changeClassTemplateParams (db : Database) (owner : String)
    (change : List TemplateParameter → List TemplateParameter) : Database :=
  db.updateClass owner fun entry =>
    { entry with record.templateParams := change entry.record.templateParams }

end Database

namespace Collector

/-- The canonical name of a declaration's type. -/
def defaultValue (c : Collector) (decl : Decl) (scope : List String) : String :=
  (TypeSource.reported decl.type).solve c.db.types scope

/-- Settle an open class template: a type reference is the default of its last parameter, and
whatever comes, the template is open no longer. -/
def settleClass (c : Collector) (decl : Decl) : Collector :=
  match c.openClass with
  | none => c
  | some owner =>
    let db :=
      if decl.kind = .typeRef then
        let value := c.defaultValue decl (Scope.split owner)
        c.db.changeClassTemplateParams owner (changeLast (·.withDefault value))
      else c.db
    { c with db := db, openClass := none }

/-- Offer a declaration to an open function template. There is a directive if it is taken; if not,
the template is closed. -/
def offerFunction (c : Collector) (decl : Decl) (parent : Site) : Collector × Option Directive :=
  match c.openFunction with
  | none => (c, none)
  | some template =>
    match decl.kind with
    | .templateTypeParameter =>
      ({ c with
         db := c.db.changeTemplateParams (· ++ [{ name := decl.spelling }]) template.target
         openFunction := some { template with lastParameter := some decl.place } },
       some .enter)
    | .typeRef =>
      let params := c.db.templateParams template.target
      if !params.isEmpty && template.lastParameter.any (parent.place.same ·) then
        let db :=
          if (params.getLast?.bind (·.default)).isNone then
            let value := c.defaultValue decl template.scope
            c.db.changeTemplateParams (changeLast (·.withDefault value)) template.target
          else c.db
        ({ c with db := db }, some .pass)
      else ({ c with openFunction := none }, some .pass)
    | .namespaceRef => (c, some .pass)
    | _ => ({ c with openFunction := none }, none)

end Collector

end SymbolIndex
