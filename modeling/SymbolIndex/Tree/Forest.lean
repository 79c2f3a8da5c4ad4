import SymbolIndex.Tree.TypeTree

/-!
# Declaration trees

A declaration holds what the parser reports of one node. A forest is a list of declarations, each
with the forest below it.
-/

namespace SymbolIndex

/-- An argument of a function declaration as a node of its own. -/
structure Argument where
  name : String
  type : TypeTree
  deriving DecidableEq, Repr

structure Decl where
  site : Site
  type : TypeTree := .missing
  prototype : Option Prototype := none
  underlying : TypeTree := .missing
  file : Option String := none
  access : Access := .invalid
  value : Int := 0
  templated : NodeKind := .classDecl
  arguments : List (Option Argument) := []
  isStatic : Bool := false
  isVirtual : Bool := false
  isPure : Bool := false
  isConst : Bool := false
  deriving DecidableEq, Repr

namespace Decl

def place (decl : Decl) : Place := decl.site.place

def kind (decl : Decl) : NodeKind := decl.site.kind

def spelling (decl : Decl) : String := decl.site.spelling

end Decl

inductive Forest where
  | nil
  | cons (decl : Decl) (children rest : Forest)
  deriving DecidableEq, Repr

namespace Forest

def ofList : List (Decl × Forest) → Forest
  | [] => nil
  | (decl, children) :: rest => cons decl children (ofList rest)

/-- The top declarations with the forests below them. -/
def toList : Forest → List (Decl × Forest)
  | nil => []
  | cons decl children rest => (decl, children) :: rest.toList

@[simp] theorem toList_ofList (trees : List (Decl × Forest)) : (ofList trees).toList = trees := by
  induction trees with
  | nil => rfl
  | cons tree trees ih => rw [ofList, toList, ih]

@[simp] theorem ofList_toList (forest : Forest) : ofList forest.toList = forest := by
  induction forest with
  | nil => rfl
  | cons decl children rest _ ih => rw [toList, ofList, ih]

/-- The top declarations. -/
def tops (forest : Forest) : List Decl := forest.toList.map Prod.fst

end Forest

/-- One parsed file: the declarations below the node of the whole file. -/
structure SourceUnit where
  root : Decl
  forest : Forest
  deriving DecidableEq, Repr

end SymbolIndex
