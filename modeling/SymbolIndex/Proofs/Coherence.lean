import Mathlib.Data.List.Nodup
import SymbolIndex.Proofs.History
import SymbolIndex.Proofs.Layers
import SymbolIndex.Proofs.Ledger
import SymbolIndex.Proofs.Lists
import SymbolIndex.Proofs.ScopePath

/-!
# The type table beside the symbol tables

Classes and enums are kept twice, as records of their own and as entries of the type table. The two
agree in every state of a run, over any trees: entry by entry and in order, with nothing but aliases
in between. Where scopes and enums are spelled with identifiers, an entry's full name is its scope
path and name, joined.
-/

namespace SymbolIndex

def TypeRef.ofClass (type : TypeRef) : Bool := type.kind == .structType || type.kind == .classType

def TypeRef.ofEnum (type : TypeRef) : Bool := type.kind == .enumType

namespace Ledger

structure Coherent (l : Ledger) : Prop where
  classes : l.types.filter TypeRef.ofClass = l.classes
  enums : l.types.filter TypeRef.ofEnum = l.enums
  kinds : ∀ t ∈ l.types, t.kind ≠ .builtin ∧ t.kind ≠ .unresolved
  named : ∀ t ∈ l.types, t.fullName ≠ ""
  namespaceNames : l.namespaces.Nodup
  classNames : (l.classes.map TypeRef.fullName).Nodup
  enumNames : (l.enums.map TypeRef.fullName).Nodup

theorem Coherent.empty : Coherent ⟨[], [], [], []⟩ where
  classes := rfl
  enums := rfl
  kinds := by simp
  named := by simp
  namespaceNames := List.nodup_nil
  classNames := List.nodup_nil
  enumNames := List.nodup_nil

end Ledger

theorem ClassKey.typeKind_cases (key : ClassKey) : key.typeKind = .structType ∨ key.typeKind = .classType := by
  cases key with
  | structKey => exact Or.inl rfl
  | classKey => exact Or.inr rfl
  | other word => exact Or.inr rfl

namespace Collector

variable {c : Collector} {decl : Decl} {parent : Site} {l : Ledger}

theorem Tallies.coherent (h : c.Tallies decl parent l) (hc : c.db.ledger.Coherent) : l.Coherent := by
  have hkinds := h.forall_types hc.kinds (fun _ _ _ hk => hk) fun scope => by
    have hkind : (c.aliasIn decl scope).kind = .aliasType := c.aliasEntry_kind ..
    simp [hkind]
  have hnamed := h.forall_types hc.named (fun scope _ _ _ => Scope.below_ne scope decl.spelling) fun scope =>
    c.aliasIn_ne decl scope hc.named
  cases h with
  | same => exact hc
  | ofNamespace kind named name_eq fresh =>
    exact { hc with namespaceNames := List.concat_eq_append ▸ hc.namespaceNames.concat fresh }
  | @ofClass kind named scope context entry entry_eq fresh =>
    have hkind : entry.kind = .structType ∨ entry.kind = .classType := by
      rw [entry_eq]
      exact decl.classKey.typeKind_cases
    refine { hc with classes := ?_, enums := ?_, kinds := hkinds, named := hnamed, classNames := ?_ }
    · rcases hkind with hk | hk <;> simp [List.filter_append, hc.classes, TypeRef.ofClass, hk]
    · rcases hkind with hk | hk <;> simp [List.filter_append, hc.enums, TypeRef.ofEnum, hk]
    · rw [List.map_append]
      exact List.concat_eq_append ▸ hc.classNames.concat fresh
  | @ofEnum kind named entry entry_eq fresh =>
    have hkind : entry.kind = .enumType := by
      rw [entry_eq]
      rfl
    refine { hc with classes := ?_, enums := ?_, kinds := hkinds, named := hnamed, enumNames := ?_ }
    · simp [List.filter_append, hc.classes, TypeRef.ofClass, hkind]
    · simp [List.filter_append, hc.enums, TypeRef.ofEnum, hkind]
    · rw [List.map_append]
      exact List.concat_eq_append ▸ hc.enumNames.concat fresh
  | @ofAlias kind scope context =>
    have hkind : (c.aliasIn decl scope).kind = .aliasType := c.aliasEntry_kind ..
    refine { hc with classes := ?_, enums := ?_, kinds := hkinds, named := hnamed }
    · simp [List.filter_append, hc.classes, TypeRef.ofClass, hkind]
    · simp [List.filter_append, hc.enums, TypeRef.ofEnum, hkind]

end Collector

/-! ## Spelled scopes -/

def Spells (name : String) : Prop := ∃ path : List String, (∀ p ∈ path, Identifier p) ∧ name = Scope.join path

theorem Spells.below {scope name : String} (h : Spells scope) (hn : Identifier name) :
    Spells (scope ++ "::" ++ name) ∧
      ∀ kind, (Database.declaredType name (scope ++ "::" ++ name) kind).Filed := by
  obtain ⟨path, hids, rfl⟩ := h
  have hids' : ∀ p ∈ path ++ [name], Identifier p := by
    intro p hp
    rcases List.mem_append.mp hp with hp | hp
    · exact hids p hp
    · rw [List.mem_singleton.mp hp]
      exact hn
  rw [← Scope.join_append_singleton]
  exact ⟨⟨path ++ [name], hids', rfl⟩, fun kind => Database.declaredType_filed kind hids'⟩

structure Ledger.Spelled (l : Ledger) : Prop where
  scopes : ∀ name ∈ l.scopes, Spells name
  classes : ∀ t ∈ l.classes, t.Filed
  enums : ∀ t ∈ l.enums, t.Filed

theorem Ledger.Spelled.empty : Spelled ⟨[], [], [], []⟩ where
  scopes := by
    intro name hn
    rw [List.mem_singleton.mp hn]
    exact ⟨[], by simp, rfl⟩
  classes := by simp
  enums := by simp

def Decl.WellSpelled (decl : Decl) : Prop :=
  decl.kind = .namespaceDecl ∨ decl.kind.isClass = true ∨ decl.kind = .enumDecl →
    isUnnamed decl.spelling = false → Identifier decl.spelling

instance (decl : Decl) : Decidable decl.WellSpelled :=
  inferInstanceAs (Decidable (_ → _ → Identifier decl.spelling))

theorem Collector.Tallies.spelled {c : Collector} {decl : Decl} {parent : Site} {l : Ledger}
    (h : c.Tallies decl parent l) (hd : decl.WellSpelled) (hs : c.db.ledger.Spelled) : l.Spelled := by
  have hscopes := h.forall_scopes hs.scopes fun kind named scope hscope =>
    (hscope.below (hd (kind.imp_right Or.inl) named)).1
  cases h with
  | same => exact hs
  | ofNamespace kind named name_eq fresh => exact { hs with scopes := hscopes }
  | @ofClass kind named scope context entry entry_eq fresh =>
    have hfiled := ((hs.scopes _ (mem_scopes_of_classContext context)).below (hd (Or.inr (Or.inl kind)) named)).2
    refine { hs with scopes := hscopes, classes := ?_ }
    intro t ht
    rcases List.mem_append.mp ht with ht | ht
    · exact hs.classes t ht
    · rw [List.mem_singleton.mp ht, entry_eq]
      exact hfiled _
  | @ofEnum kind named entry entry_eq fresh =>
    have hcontext := c.db.getD_scopeName?_mem_scopes parent.chain
    have hfiled := ((hs.scopes _ hcontext).below (hd (Or.inr (Or.inr kind)) named)).2
    refine { hs with scopes := hscopes, enums := ?_ }
    intro t ht
    rcases List.mem_append.mp ht with ht | ht
    · exact hs.enums t ht
    · rw [List.mem_singleton.mp ht, entry_eq]
      exact hfiled _
  | ofAlias kind context => exact { hs with scopes := hscopes }

/-! ## States of a run -/

structure Database.Coherent (db : Database) : Prop where
  classes : List.Forall₂
    (fun t (e : ClassEntry) => t.fullName = e.fullName ∧ t.name = e.record.name ∧
      (t.kind = .structType ↔ e.record.key = .structKey))
    (db.types.filter TypeRef.ofClass) db.classes
  enums : List.Forall₂ (fun t (e : EnumEntry) => t.fullName = e.fullName ∧ t.name = e.record.name)
    (db.types.filter TypeRef.ofEnum) db.enums
  others : ∀ t ∈ db.types, t.ofClass = false → t.ofEnum = false → t.kind = .aliasType
  named : ∀ t ∈ db.types, t.fullName ≠ ""
  classKeys : ∀ name e, db.findClass? name = some e ↔ e ∈ db.classes ∧ e.fullName = name
  namespaceKeys : ∀ name e, db.findNamespace? name = some e ↔ e ∈ db.namespaces ∧ e.fullName = name
  enumKeys : ∀ name e, db.findEnum? name = some e ↔ e ∈ db.enums ∧ e.fullName = name

theorem Ledger.Coherent.database {db : Database} (h : db.ledger.Coherent) : db.Coherent where
  classes := by
    have hlisted : db.types.filter TypeRef.ofClass = db.classes.map ClassEntry.tableEntry := h.classes
    rw [hlisted, List.forall₂_map_left_iff, List.forall₂_same]
    intro e _
    refine ⟨rfl, rfl, ?_⟩
    cases hk : e.record.key <;> simp [ClassEntry.tableEntry, Database.declaredType, hk, ClassKey.typeKind]
  enums := by
    have hlisted : db.types.filter TypeRef.ofEnum = db.enums.map EnumEntry.tableEntry := h.enums
    rw [hlisted, List.forall₂_map_left_iff, List.forall₂_same]
    intro e _
    exact ⟨rfl, rfl⟩
  others := by
    intro t ht hc he
    obtain ⟨hb, hu⟩ := h.kinds t ht
    cases hk : t.kind <;> simp_all [TypeRef.ofClass, TypeRef.ofEnum]
  named := h.named
  classKeys := by
    have hnames : (db.classes.map ClassEntry.fullName).Nodup := by
      have := h.classNames
      rwa [show db.ledger.classes = db.classes.map ClassEntry.tableEntry from rfl, List.map_map] at this
    exact find?_eq_some_of_key hnames
  namespaceKeys := find?_eq_some_of_key h.namespaceNames
  enumKeys := by
    have hnames : (db.enums.map EnumEntry.fullName).Nodup := by
      have := h.enumNames
      rwa [show db.ledger.enums = db.enums.map EnumEntry.tableEntry from rfl, List.map_map] at this
    exact find?_eq_some_of_key hnames

/-- In every state of a run, over any trees, type table and symbol tables are coherent. If scopes and
enums are spelled with identifiers, then the entry of a class or enum has its scope path and name as its
full name. -/
theorem tables_coherent (base : String) (roots : List String) (units : List SourceUnit) :
    ∀ state ∈ (Collector.start base roots {}).states units, state.db.Coherent ∧
      ((∀ u ∈ units, ∀ d ∈ u.decls, d.WellSpelled) →
        ∀ t ∈ state.db.types, t.ofClass = true ∨ t.ofEnum = true →
          t.fullName = Scope.join (t.scopePath ++ [t.name])) := by
  have hcoherent : ∀ state ∈ (Collector.start base roots {}).states units, state.db.ledger.Coherent :=
    Collector.states_invariant (P := fun db => db.ledger.Coherent)
      (fun _ _ _ _ h => Collector.ledger_keeps (fun _ _ ht hc => ht.coherent hc) h) Ledger.Coherent.empty
  intro state hs
  refine ⟨(hcoherent state hs).database, ?_⟩
  intro hunits t ht hkind
  have hspelled : state.db.ledger.Spelled := by
    refine Collector.states_invariant (P := fun db => db.ledger.Spelled) (c := .start base roots {}) ?_
      Ledger.Spelled.empty state hs
    rintro c decl parent ⟨u, hu, hdecl⟩ h
    exact Collector.ledger_keeps (fun _ _ ht hc => ht.spelled (hunits u hu decl hdecl) hc) h
  have hlisted := hcoherent state hs
  rcases hkind with hk | hk
  · have hm : t ∈ state.db.ledger.classes := by
      rw [← hlisted.classes]
      exact List.mem_filter.mpr ⟨ht, hk⟩
    exact (hspelled.classes t hm).joined
  · have hm : t ∈ state.db.ledger.enums := by
      rw [← hlisted.enums]
      exact List.mem_filter.mpr ⟨ht, hk⟩
    exact (hspelled.enums t hm).joined

namespace TwiceDeclared

def outer : Decl := (Decl.wholeFile 0).within 1 .namespaceDecl "N"
def forward : Decl := outer.within 2 .structDecl "S"
def unknown : Decl :=
  { outer.within 3 .typedefDecl "A" with underlying := .named ⟨"U", false⟩ .other none }
def whole : Decl := outer.within 4 .classDecl "S"
def inner : Decl := whole.within 5 .enumDecl "E"
def unnamed : Decl := outer.within 6 .structDecl "(unnamed)"

-- `namespace N { struct S; typedef U A; class S { enum E {}; }; struct {}; }`
def unit : SourceUnit where
  root := .wholeFile 0
  forest := .ofList [(outer, .ofList [(forward, .nil), (unknown, .nil), (whole, .ofList [(inner, .nil)]),
    (unnamed, .nil)])]

def state : Collector := ((Collector.start "/" [] {}).states [unit]).getLast (List.cons_ne_nil _ _)

def entry : TypeRef := Database.declaredType "E" "::N::S::E" .enumType

end TwiceDeclared

open TwiceDeclared in
theorem tables_of_class_declared_twice :
    state.db.types.map TypeRef.fullName = ["::N::S", "::U", "::N::S::E"] ∧ state.db.Coherent ∧
      entry.fullName = Scope.join (entry.scopePath ++ [entry.name]) := by
  obtain ⟨hcoherent, hjoined⟩ := tables_coherent "/" [] [unit] state (List.getLast_mem _)
  have hlast : entry ∈ state.db.types := by
    have htypes : state.db.types.getLast? = some entry := rfl
    exact List.mem_of_getLast? htypes
  exact ⟨rfl, hcoherent, hjoined (by decide) entry hlast (Or.inr rfl)⟩

end SymbolIndex
