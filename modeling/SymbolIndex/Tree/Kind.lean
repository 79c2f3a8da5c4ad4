/-!
# Kinds of declaration nodes

The kinds that the collector tells apart, and every other kind by its name.
-/

namespace SymbolIndex

inductive NodeKind where
  | sourceUnit
  | linkageSpec
  | namespaceDecl
  | typedefDecl
  | typeAliasDecl
  | enumDecl
  | enumConstant
  | structDecl
  | classDecl
  | unionDecl
  | classTemplate
  | partialSpecialization
  | functionDecl
  | functionTemplate
  | methodDecl
  | constructorDecl
  | fieldDecl
  | variableDecl
  | friendDecl
  | accessSpec
  | baseSpecifier
  | templateTypeParameter
  | typeRef
  | namespaceRef
  | noDeclaration
  | other (name : String)
  deriving DecidableEq, Repr

namespace NodeKind

/-- The kinds with a constructor of their own, by name. -/
def named : List (String × NodeKind) :=
  [("TRANSLATION_UNIT", sourceUnit), ("LINKAGE_SPEC", linkageSpec), ("NAMESPACE", namespaceDecl),
   ("TYPEDEF_DECL", typedefDecl), ("TYPE_ALIAS_DECL", typeAliasDecl), ("ENUM_DECL", enumDecl),
   ("ENUM_CONSTANT_DECL", enumConstant), ("STRUCT_DECL", structDecl), ("CLASS_DECL", classDecl),
   ("UNION_DECL", unionDecl), ("CLASS_TEMPLATE", classTemplate),
   ("CLASS_TEMPLATE_PARTIAL_SPECIALIZATION", partialSpecialization),
   ("FUNCTION_DECL", functionDecl), ("FUNCTION_TEMPLATE", functionTemplate),
   ("CXX_METHOD", methodDecl), ("CONSTRUCTOR", constructorDecl), ("FIELD_DECL", fieldDecl),
   ("VAR_DECL", variableDecl), ("FRIEND_DECL", friendDecl), ("CXX_ACCESS_SPEC_DECL", accessSpec),
   ("CXX_BASE_SPECIFIER", baseSpecifier), ("TEMPLATE_TYPE_PARAMETER", templateTypeParameter),
   ("TYPE_REF", typeRef), ("NAMESPACE_REF", namespaceRef), ("NO_DECL_FOUND", noDeclaration)]

def ofName (name : String) : NodeKind := (named.lookup name).getD (.other name)

def name : NodeKind → String
  | .other name => name
  | kind => ((named.find? fun entry => entry.2 == kind).map Prod.fst).getD ""

/-- The kinds whose name becomes a component of the scope of what they enclose. -/
def opensScope : NodeKind → Bool
  | namespaceDecl | structDecl | classDecl | unionDecl | classTemplate | partialSpecialization => true
  | _ => false

end NodeKind

/-- Who may use a member. A record made by hand may say so in a word of its own. -/
inductive Visibility where
  | everyone
  | derived
  | owner
  | other (word : String)
  deriving DecidableEq, Repr

namespace Visibility

def word : Visibility → String
  | everyone => "public"
  | derived => "protected"
  | owner => "private"
  | other word => word

def ofWord (word : String) : Visibility :=
  if word = "public" then everyone
  else if word = "protected" then derived
  else if word = "private" then owner
  else other word

@[simp]
theorem word_ofWord (w : String) : (ofWord w).word = w := by
  unfold ofWord
  repeat' split
  all_goals simp_all [word]

end Visibility

/-- The access in force for the members of a class, or that an access specifier sets. -/
inductive Access where
  | invalid
  | unspecified
  | everyone
  | derived
  | owner
  deriving DecidableEq, Repr

/-- A member declared without a proper access is taken for a public one. -/
def Access.visibility : Access → Visibility
  | derived => .derived
  | owner => .owner
  | _ => .everyone

end SymbolIndex
