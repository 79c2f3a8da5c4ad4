import SymbolIndex.TypeRef.Resolve

/-!
# Layers of a type

A type is a stack of layers over a base. Reading it counts the layers and names the base, and these do
not interfere.
-/

namespace SymbolIndex

namespace TypeTree

/-- The type under all pointers, references and elaborations. -/
def base : TypeTree → TypeTree
  | pointer _ type | reference _ _ type | elaborated _ type => type.base
  | type => type

def pointerLayers : TypeTree → Int
  | pointer _ type => type.pointerLayers + 1
  | reference _ _ type | elaborated _ type => type.pointerLayers
  | _ => 0

def referenceLayers : TypeTree → Int
  | reference _ _ type => type.referenceLayers + 1
  | pointer _ type | elaborated _ type => type.referenceLayers
  | _ => 0

def anyConst : TypeTree → Bool
  | pointer written type | reference written _ type | elaborated written type => written.isConst || type.anyConst
  | type => type.written.isConst

theorem core_eq_base (tree : TypeTree) :
    tree.core = { tree.base.core with
      isConst := tree.anyConst, pointers := tree.pointerLayers, references := tree.referenceLayers } := by
  induction tree with
  | builtin written type => rfl
  | declarator written => rfl
  | named written kind declaration => simp only [core, base, anyConst, pointerLayers, referenceLayers, TypeTree.written]
  | pointer written type ih =>
    rw [core, ih]
    rfl
  | reference written rvalue type ih =>
    rw [core, ih]
    rfl
  | elaborated written type ih =>
    rw [core, ih]
    rfl

theorem isInvalid_eq_false_of_base {tree : TypeTree} (h : tree.base.isInvalid = false) : tree.isInvalid = false := by
  cases tree with
  | builtin written type => rfl
  | declarator written => rfl
  | named written kind declaration => exact h
  | pointer written type => rfl
  | reference written rvalue type => rfl
  | elaborated written type => rfl

theorem core_builtin {tree : TypeTree} (h : tree.core.kind = .builtin) :
    ∃ type : Builtin, tree.core.fullName = type.name := by
  induction tree with
  | builtin written type => exact ⟨type, rfl⟩
  | declarator written => simp [core] at h
  | named written kind declaration => simp [core] at h
  | pointer written type ih => exact ih h
  | reference written rvalue type ih => exact ih h
  | elaborated written type ih => exact ih h

end TypeTree

theorem Builtin.name_ne (type : Builtin) : type.name ≠ "" := by
  cases type <;> decide

theorem Builtin.mem_names (type : Builtin) : type.name ∈ names := by
  have hall : type ∈ all := by cases type <;> decide
  exact List.mem_map_of_mem hall

/-! ## Types that name their declaration -/

/-- A declaration that a type can be named after: it has a name and, unlike a template parameter, a
scope. -/
structure Site.Nameable (a : Site) : Prop where
  known : a.kind ≠ .noDeclaration
  standing : a.kind ≠ .templateTypeParameter
  spelled : a.spelling ≠ ""

/-- The first table entry under a declaration's own path and name. -/
def Site.entryIn? (a : Site) (table : List TypeRef) : Option TypeRef :=
  table.find? fun known => known.name == a.spelling && known.scopePath == a.scopePath

def Written.arguments (written : Written) : String := (readScopedName (stripKeywords written.spelling)).2.2

namespace TypeRef

theorem ofTree_named {tree : TypeTree} {written : Written} {kind : NamedKind} {a : Site}
    (hb : tree.base = .named written kind (some a)) (ha : a.Nameable) :
    ofTree tree = { rawName := tree.spelling, name := a.spelling, scopePath := a.scopePath, isConst := tree.anyConst,
                    pointers := tree.pointerLayers, references := tree.referenceLayers,
                    templateArguments := written.arguments } := by
  have husable : usableDeclaration (some a) = some a := by
    simp [usableDeclaration, Option.filter, ha.known, ha.spelled]
  rw [ofTree, tree.core_eq_base, hb]
  simp only [TypeTree.core, husable, Option.map_some, Option.getD_some, declaredName, if_neg ha.standing,
    Written.arguments]

theorem ofTree_builtin {tree : TypeTree} {written : Written} {type : Builtin} (hb : tree.base = .builtin written type) :
    ofTree tree = { rawName := tree.spelling, name := type.name, fullName := type.name, isConst := tree.anyConst,
                    pointers := tree.pointerLayers, references := tree.referenceLayers, kind := .builtin } := by
  rw [ofTree, tree.core_eq_base, hb]
  rfl

theorem findIn?_named {tree : TypeTree} {written : Written} {kind : NamedKind} {a : Site}
    (hb : tree.base = .named written kind (some a)) (ha : a.Nameable) {table : List TypeRef} {known : TypeRef}
    (h : a.entryIn? table = some known) (scope : List String) : (ofTree tree).findIn? table scope = some known := by
  rw [ofTree_named hb ha, findIn?, candidateScopes, List.findSome?_cons]
  simp only
  unfold Site.entryIn? at h
  rw [h]

end TypeRef

theorem TypeSource.resolve_named {tree : TypeTree} {written : Written} {kind : NamedKind} {a : Site}
    (hb : tree.base = .named written kind (some a)) (ha : a.Nameable) {table : List TypeRef} {known : TypeRef}
    (h : a.entryIn? table = some known) (scope : List String) :
    (TypeSource.reported tree).resolve table scope = ((TypeRef.ofTree tree).refineBy known).addLayer known := by
  have hkind : (TypeRef.ofTree tree).kind = .unresolved := by
    rw [TypeRef.ofTree_named hb ha]
  rw [resolve, load, TypeRef.resolveIn, hkind, TypeRef.findIn?_named hb ha h scope]
  rfl

end SymbolIndex
