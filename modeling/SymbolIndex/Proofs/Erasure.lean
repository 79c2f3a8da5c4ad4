import SymbolIndex.Proofs.Lists
import SymbolIndex.Proofs.Scoping

/-!
# Trees without identities

Two parses of one file give the same tree of different places. Erasing what makes a place one node
leaves kinds, spellings and types, and these are all that names, scopes and signatures are read from.
-/

namespace SymbolIndex

def Place.erase (place : Place) : Place := { place with serial := 0, token := none }

def Site.erase (a : Site) : Site := ⟨a.place.erase, a.outer.map Place.erase⟩

def TypeTree.erase : TypeTree → TypeTree
  | builtin written type => builtin written type
  | declarator written => declarator written
  | named written kind declaration => named written kind (declaration.map Site.erase)
  | pointer written type => pointer written type.erase
  | reference written rvalue type => reference written rvalue type.erase
  | elaborated written type => elaborated written type.erase

def Prototype.erase (prototype : Prototype) : Prototype :=
  { prototype with result := prototype.result.erase, arguments := prototype.arguments.map TypeTree.erase }

def Argument.erase (argument : Argument) : Argument := { argument with type := argument.type.erase }

def Decl.erase (decl : Decl) : Decl :=
  { decl with
    site := decl.site.erase
    type := decl.type.erase
    prototype := decl.prototype.map Prototype.erase
    underlying := decl.underlying.erase
    arguments := decl.arguments.map (Option.map Argument.erase) }

def Forest.erase : Forest → Forest
  | nil => nil
  | cons decl children rest => cons decl.erase children.erase rest.erase

def SourceUnit.erase (unit : SourceUnit) : SourceUnit := ⟨unit.root.erase, unit.forest.erase⟩

/-! ## Names and types -/

theorem writtenScope_erase : ∀ chain : List Place, writtenScope (chain.map Place.erase) = writtenScope chain
  | [] => rfl
  | place :: outer => by
    have hk : place.erase.kind = place.kind := rfl
    have hs : place.erase.spelling = place.spelling := rfl
    rw [List.map_cons, writtenScope, writtenScope, hk, hs, writtenScope_erase outer]

theorem Site.scopePath_erase (a : Site) : a.erase.scopePath = a.scopePath := by
  simp only [scopePath, erase, List.takeWhile_map, List.filter_map, List.map_map]
  rfl

namespace TypeTree

theorem spelling_erase (tree : TypeTree) : tree.erase.spelling = tree.spelling := by
  cases tree <;> rfl

theorem isInvalid_erase (tree : TypeTree) : tree.erase.isInvalid = tree.isInvalid := by
  cases tree with
  | named written kind declaration => cases kind <;> rfl
  | _ => rfl

theorem isVoid_erase (tree : TypeTree) : tree.erase.isVoid = tree.isVoid := by
  cases tree with
  | builtin written type => cases type <;> rfl
  | _ => rfl

theorem usableDeclaration_erase (declaration : Option Site) :
    (usableDeclaration (declaration.map Site.erase)).map declaredName = (usableDeclaration declaration).map declaredName := by
  cases declaration with
  | none => rfl
  | some a =>
    have hname : declaredName a.erase = declaredName a := by
      unfold declaredName
      rw [a.scopePath_erase]
      rfl
    have hfilter : (a.erase.kind != .noDeclaration && a.erase.spelling != "") =
        (a.kind != .noDeclaration && a.spelling != "") := rfl
    simp only [usableDeclaration, Option.map_some, Option.filter_some, hfilter]
    split
    · simp [hname]
    · rfl

theorem core_erase (tree : TypeTree) : tree.erase.core = tree.core := by
  induction tree with
  | builtin written type => rfl
  | declarator written => rfl
  | named written kind declaration =>
    simp only [erase, core, usableDeclaration_erase]
  | pointer written type ih =>
    simp only [erase, core, ih]
  | reference written rvalue type ih =>
    simp only [erase, core, ih]
  | elaborated written type ih =>
    simp only [erase, core, ih]

end TypeTree

theorem TypeRef.ofTree_erase (tree : TypeTree) : ofTree tree.erase = ofTree tree := by
  rw [ofTree, ofTree, tree.core_erase, tree.spelling_erase]

theorem resolveParameter_erase (tree : TypeTree) (table : List TypeRef) (name : String) (scope : List String) :
    resolveParameter tree.erase table name scope = resolveParameter tree table name scope := by
  rw [resolveParameter, resolveParameter, tree.isInvalid_erase, TypeSource.resolve, TypeSource.resolve, TypeSource.load,
    TypeSource.load, TypeRef.ofTree_erase]

theorem argumentSlots_erase : ∀ (types : List TypeTree) (nodes : List (Option Argument)),
    argumentSlots (types.map TypeTree.erase) (nodes.map (Option.map Argument.erase)) =
      (argumentSlots types nodes).map fun slot => (slot.1.erase, slot.2)
  | [], _ => rfl
  | type :: types, [] => by
    have ih := argumentSlots_erase types []
    rw [List.map_nil] at ih
    rw [List.map_cons, List.map_nil, argumentSlots, argumentSlots, ih]
    rfl
  | type :: types, node :: nodes => by
    have hslot : argumentSlot type.erase (node.map Argument.erase) =
        ((argumentSlot type node).1.erase, (argumentSlot type node).2) := by
      cases node with
      | none => rfl
      | some argument =>
        have hi : argument.erase.type.isInvalid = argument.type.isInvalid := argument.type.isInvalid_erase
        simp only [Option.map_some, argumentSlot, hi]
        split <;> rfl
    rw [List.map_cons, List.map_cons, argumentSlots, argumentSlots, argumentSlots_erase types nodes, hslot]
    rfl

theorem readSignature_erase (decl : Decl) (table : List TypeRef) (scope : List String) :
    readSignature decl.erase table scope = readSignature decl table scope := by
  unfold readSignature
  cases hp : decl.prototype with
  | none =>
    have : decl.erase.prototype = none := by simp [Decl.erase, hp]
    rw [this]
  | some prototype =>
    have hpe : decl.erase.prototype = some prototype.erase := by simp [Decl.erase, hp]
    have hslots : argumentSlots prototype.erase.arguments decl.erase.arguments =
        (argumentSlots prototype.arguments decl.arguments).map fun slot => (slot.1.erase, slot.2) :=
      argumentSlots_erase prototype.arguments decl.arguments
    have hresult : resolveResult prototype.erase.result table scope = resolveResult prototype.result table scope := by
      have hr : prototype.erase.result = prototype.result.erase := rfl
      rw [hr, resolveResult, resolveResult, TypeTree.isInvalid_erase, TypeTree.isVoid_erase, TypeSource.resolve,
        TypeSource.resolve, TypeSource.load, TypeSource.load, TypeRef.ofTree_erase]
    rw [hpe]
    simp only [hslots, hresult, List.mapM_map, Function.comp_def, resolveParameter_erase]
    rfl

/-! ## Lookups that find the same -/

/-- Two tables give a type the same entry, or none, from within a scope. -/
def FindSame (table table' : List TypeRef) (scope : List String) (type : TypeTree) : Prop :=
  (TypeRef.ofTree type).findIn? table' scope = (TypeRef.ofTree type).findIn? table scope

instance (table table' : List TypeRef) (scope : List String) (type : TypeTree) :
    Decidable (FindSame table table' scope type) :=
  inferInstanceAs (Decidable (_ = _))

theorem resolveParameter_congr {table table' : List TypeRef} {scope : List String} {type : TypeTree}
    (h : FindSame table table' scope type) (name : String) :
    resolveParameter type table' name scope = resolveParameter type table name scope := by
  unfold FindSame at h
  rw [resolveParameter, resolveParameter, TypeSource.resolve, TypeSource.resolve, TypeSource.load, TypeRef.resolveIn,
    TypeRef.resolveIn, h]

def Decl.parameterTypes (decl : Decl) : List TypeTree :=
  (argumentSlots (decl.prototype.elim [] Prototype.arguments) decl.arguments).map Prod.fst

theorem readSignature_congr {decl : Decl} {table table' : List TypeRef} {scope : List String}
    (h : ∀ type ∈ decl.parameterTypes, FindSame table table' scope type) {signature : Signature}
    (hs : readSignature decl table scope = .ok signature) :
    ∃ signature', readSignature decl table' scope = .ok signature' ∧ signature'.params = signature.params := by
  unfold readSignature at hs ⊢
  unfold Decl.parameterTypes at h
  cases hp : decl.prototype with
  | none =>
    rw [hp] at hs
    exact ⟨{}, rfl, by cases hs; rfl⟩
  | some prototype =>
    rw [hp] at hs h
    simp only [Option.elim_some] at hs h ⊢
    have hparams : (argumentSlots prototype.arguments decl.arguments).mapM
          (fun slot => resolveParameter slot.1 table' slot.2 scope) =
        (argumentSlots prototype.arguments decl.arguments).mapM
          fun slot => resolveParameter slot.1 table slot.2 scope := by
      apply mapM_congr
      intro slot hm
      exact resolveParameter_congr (h slot.1 (List.mem_map_of_mem hm)) slot.2
    rw [hparams]
    cases hm : (argumentSlots prototype.arguments decl.arguments).mapM
        fun slot => resolveParameter slot.1 table slot.2 scope with
    | error e =>
      rw [hm] at hs
      cases hs
    | ok params =>
      rw [hm] at hs
      cases hs
      exact ⟨_, rfl, rfl⟩

theorem Collector.aliasEntry_congr {c c' : Collector} {scope : List String} {type : TypeTree}
    (h : FindSame c.db.types c'.db.types scope type) (name : String) :
    c'.aliasEntry name scope (.ofTree type) = c.aliasEntry name scope (.ofTree type) := by
  unfold FindSame at h
  unfold aliasEntry
  rw [h]

end SymbolIndex
