import SymbolIndex.Proofs.Layers
import SymbolIndex.Proofs.Run
import SymbolIndex.Proofs.SplitJoin
import SymbolIndex.Proofs.TypeTable

/-!
# Full names and scope paths

A full name is built along the walk, a scope path is read off a declaration's chain, and the type
table files a class under the path that its full name splits into. On trees whose scopes are spelled
with identifiers the three agree, so a type that names a class by its declaration finds that class.
-/

namespace SymbolIndex

/-! ## Paths along a chain -/

def chainPath (chain : List Place) : List String :=
  (((chain.takeWhile fun place => place.kind != .sourceUnit).filter fun place =>
    place.kind.opensScope && place.spelling != "").map Place.spelling).reverse

theorem Site.scopePath_eq (a : Site) : a.scopePath = chainPath a.outer := rfl

theorem chainPath_file {place : Place} (outer : List Place) (h : place.kind = .sourceUnit) :
    chainPath (place :: outer) = [] := by
  simp [chainPath, h]

theorem chainPath_linkage {place : Place} (outer : List Place) (h : place.kind = .linkageSpec) :
    chainPath (place :: outer) = chainPath outer := by
  simp [chainPath, h, NodeKind.opensScope]

theorem chainPath_scope {place : Place} (outer : List Place)
    (h : place.kind = .namespaceDecl ∨ place.kind.isClass = true) (hs : place.spelling ≠ "") :
    chainPath (place :: outer) = chainPath outer ++ [place.spelling] := by
  have hf : place.kind ≠ .sourceUnit := by
    intro hf
    simp [hf, NodeKind.isClass] at h
  have ho : place.kind.opensScope = true := by
    cases hk : place.kind <;> simp_all [NodeKind.isClass, NodeKind.opensScope]
  simp [chainPath, hf, ho, hs]

structure Spelled (U : Site → Prop) : Prop where
  placed : ∀ a, U a → a.kind = .namespaceDecl → inScope a.outer = true
  identifiers : ∀ a, U a → a.kind = .namespaceDecl ∨ a.kind.isClass = true → Identifier a.spelling

section
variable {U : Site → Prop} (hU : Terrain U) (hS : Spelled U)
include hU hS

theorem Spelled.written : ∀ (chain : List Place) (a : Site), U a → a.chain = chain → ∀ {name : String},
    writtenScope chain = some name → name = Scope.join (chainPath chain) ∧ ∀ p ∈ chainPath chain, Identifier p
  | [], a, _, hc, _, _ => by simp [Site.chain] at hc
  | place :: outer, a, ha, hc, name, hw => by
    obtain ⟨rfl, rfl⟩ : a.place = place ∧ a.outer = outer := by simpa [Site.chain] using hc
    by_cases hf : a.place.kind = .sourceUnit
    · rw [writtenScope_file _ hf] at hw
      rw [chainPath_file _ hf]
      cases hw
      exact ⟨rfl, by simp⟩
    obtain ⟨b, hb, hob⟩ := hU.outward a ha hf
    have ih : ∀ {name : String}, writtenScope a.outer = some name →
        name = Scope.join (chainPath a.outer) ∧ ∀ p ∈ chainPath a.outer, Identifier p :=
      Spelled.written a.outer b hb hob.symm
    -- a namespace and a class put one identifier below the path around them
    have hscope : a.place.kind = .namespaceDecl ∨ a.place.kind.isClass = true → ∀ scope,
        writtenScope a.outer = some scope → name = scope ++ "::" ++ a.place.spelling →
          name = Scope.join (chainPath (a.place :: a.outer)) ∧ ∀ p ∈ chainPath (a.place :: a.outer), Identifier p := by
      intro hk scope hs hname
      have hid : Identifier a.place.spelling := hS.identifiers a ha hk
      obtain ⟨hscope, hids⟩ := ih hs
      rw [chainPath_scope _ hk hid.nonempty, Scope.join_append_singleton, ← hscope]
      refine ⟨hname, ?_⟩
      intro p hp
      rcases List.mem_append.mp hp with hp | hp
      · exact hids p hp
      · rw [List.mem_singleton.mp hp]
        exact hid
    by_cases hl : a.place.kind = .linkageSpec
    · rw [writtenScope_linkage _ hl] at hw
      rw [chainPath_linkage _ hl]
      exact ih hw
    by_cases hn : a.place.kind = .namespaceDecl
    · have hin := hS.placed a ha hn
      rw [← isSome_writtenScope] at hin
      obtain ⟨scope, hs⟩ := Option.isSome_iff_exists.mp hin
      rw [writtenScope_namespace _ hn, hs] at hw
      exact hscope (Or.inl hn) scope hs (Option.some.inj hw).symm
    by_cases hcl : a.place.kind.isClass = true
    · rw [writtenScope_class _ hcl] at hw
      obtain ⟨scope, hs, hname⟩ := Option.map_eq_some_iff.mp hw
      exact hscope (Or.inr hcl) scope hs hname.symm
    · rw [writtenScope_other _ hf hl hn (by simpa using hcl)] at hw
      cases hw

theorem Spelled.declares {a : Site} (ha : U a) {fullName : String} (hd : a.Declares fullName) :
    fullName = Scope.join (a.scopePath ++ [a.spelling]) ∧ ∀ p ∈ a.scopePath ++ [a.spelling], Identifier p := by
  have hid : Identifier a.place.spelling := hS.identifiers a ha (Or.inr hd.1)
  have hpath : chainPath a.chain = a.scopePath ++ [a.spelling] := by
    rw [a.scopePath_eq]
    exact chainPath_scope a.outer (Or.inr hd.1) hid.nonempty
  rw [← hpath]
  exact Spelled.written hU hS a.chain a ha rfl hd.2

end

/-! ## Classes in the type table -/

/-- A table entry stands under the path and name that its full name is joined from. -/
structure TypeRef.Filed (type : TypeRef) : Prop where
  identifiers : ∀ p ∈ type.scopePath ++ [type.name], Identifier p
  joined : type.fullName = Scope.join (type.scopePath ++ [type.name])

theorem Database.declaredType_filed {path : List String} {name : String} (kind : TypeKind)
    (h : ∀ p ∈ path ++ [name], Identifier p) :
    (declaredType name (Scope.join (path ++ [name])) kind).Filed := by
  have hpath : (declaredType name (Scope.join (path ++ [name])) kind).scopePath = path := by
    simp only [declaredType]
    exact Scope.split_parent_join h
  constructor
  · rw [hpath]
    exact h
  · rw [hpath]
    rfl

/-- What a type table keeps of classes: they are listed, and each stands under its own path and name. -/
structure Database.Tabled (db : Database) : Prop where
  unique : db.UniqueClasses
  listed : db.Listed
  filed : ∀ t ∈ db.classes.map ClassEntry.tableEntry, t.Filed

theorem Database.Tabled.of_outline {db db' : Database} (ho : db'.outline = db.outline) (h : db.Tabled) :
    db'.Tabled := by
  refine ⟨h.unique.of_outline ho, h.listed.of_outline ho, ?_⟩
  rw [tableEntries_of_outline ho]
  exact h.filed

section
variable {U : Site → Prop}

theorem Situated.tabled_effect {c : Collector} {decl : Decl} {parent : Site} {db : Database} {d : Directive}
    (hs : Situated U c decl parent) (hS : Spelled U) (h : c.db.Tabled) (heff : c.Effect decl parent db d) :
    db.Tabled := by
  refine ⟨h.unique.effect heff, h.listed.effect heff, ?_⟩
  rcases heff.tableEntries with hsame | ⟨scope, kind, context, hnew⟩
  · rw [hsame]
    exact h.filed
  · intro t ht
    rw [hnew, List.mem_append] at ht
    rcases ht with ht | ht
    · exact h.filed t ht
    · rw [List.mem_singleton.mp ht]
      have hd : decl.site.Declares (c.classRecord decl scope).fullName := ⟨kind, hs.class_written kind context⟩
      obtain ⟨hname, hids⟩ := hS.declares hs.terrain hs.here hd
      rw [hname]
      exact Database.declaredType_filed _ hids

theorem Situated.tabled {c : Collector} {decl : Decl} {parent : Site} (hs : Situated U c decl parent)
    (hS : Spelled U) (h : c.db.Tabled) : (c.visit decl parent).collector.db.Tabled :=
  Collector.visit_invariant (fun _ _ ho h => h.of_outline ho)
    (fun _ _ _ ha heff h => (hs.alike ha).tabled_effect hS h heff) h

end

/-! ## Resolving a class -/

theorem Database.Tabled.find?_class {db : Database} (h : db.Tabled) {entry : ClassEntry} (hm : entry ∈ db.classes)
    {path : List String} {name : String} (hname : entry.fullName = Scope.join (path ++ [name]))
    (hids : ∀ p ∈ path ++ [name], Identifier p)
    (hfree : ∀ t ∈ db.types, t.kind = .aliasType ∨ t.kind = .enumType → ¬ (t.scopePath = path ∧ t.name = name)) :
    db.types.find? (fun known => known.name == name && known.scopePath == path) = some entry.tableEntry := by
  -- entries of classes are told apart by their full names, so by path and name
  have hkey : ∀ t ∈ db.classes.map ClassEntry.tableEntry, t.fullName = Scope.join (path ++ [name]) →
      t.scopePath = path ∧ t.name = name := by
    intro t ht hfull
    have hfiled := h.filed t ht
    rw [hfiled.joined] at hfull
    have := Scope.join_injective hfiled.identifiers hids hfull
    simpa using List.append_inj' this rfl
  have hmem := h.listed.mem_types hm
  cases hf : db.types.find? (fun known => known.name == name && known.scopePath == path) with
  | none =>
    have hbad := List.find?_eq_none.mp hf _ hmem
    obtain ⟨h1, h2⟩ := hkey _ (List.mem_map_of_mem hm) hname
    simp [h1, h2] at hbad
  | some t =>
    have ht := List.mem_of_find?_eq_some hf
    obtain ⟨h1, h2⟩ : t.name = name ∧ t.scopePath = path := by simpa using List.find?_some hf
    have hclass : t ∈ db.classes.map ClassEntry.tableEntry := by
      rw [← h.listed.classes, List.mem_filter]
      refine ⟨ht, ?_⟩
      by_cases hk : t.kind = .aliasType ∨ t.kind = .enumType
      · exact absurd ⟨h2, h1⟩ (hfree t ht hk)
      · simp only [not_or] at hk
        simp [hk.1, hk.2]
    obtain ⟨e, he, rfl⟩ := List.mem_map.mp hclass
    have hfull : e.fullName = entry.fullName := by
      have := (h.filed _ hclass).joined
      rw [h1, h2, ← hname] at this
      exact this
    have hsame := h.unique.findClass? he
    rw [hfull, h.unique.findClass? hm] at hsame
    rw [Option.some.inj hsame]

def ScopesSpelled (units : List SourceUnit) : Prop :=
  ∀ u ∈ units, ∀ d ∈ u.decls, d.kind = .namespaceDecl ∨ d.kind.isClass = true → Identifier d.spelling

instance (units : List SourceUnit) : Decidable (ScopesSpelled units) :=
  inferInstanceAs (Decidable (∀ u ∈ units, ∀ d ∈ u.decls, d.kind = .namespaceDecl ∨ d.kind.isClass = true →
    Identifier d.spelling))

theorem Spelled.of_units {units : List SourceUnit} (placed : NamespacesPlaced units)
    (spelled : ScopesSpelled units) : Spelled (SitesOf units) := by
  constructor
  · intro a ha hk
    obtain ⟨u, hu, d, hd, rfl⟩ := ha
    exact placed u hu d hd hk
  · intro a ha hk
    obtain ⟨u, hu, d, hd, rfl⟩ := ha
    exact spelled u hu d hd hk

theorem Database.Tabled.empty (base : String) (roots : List String) : (Collector.start base roots {}).db.Tabled :=
  ⟨by simp [Collector.start, UniqueClasses, classMarks], .empty base roots, by simp [Collector.start]⟩

/-- **Names and paths agree.** In every state of a run, a registered class declaration's record has the
full name that the declaration's scope path and spelling join to; and unless an alias or enum stands
under that path and name, every type over the declaration resolves to that record, from any scope. -/
theorem class_names_agree {base : String} {roots : List String} {units : List SourceUnit} {c : Collector}
    (wf : WellFormed units) (placed : NamespacesPlaced units) (spelled : ScopesSpelled units)
    (reached : (Collector.start base roots {}).Reached units c) {unit : SourceUnit} (hu : unit ∈ units) {decl : Decl}
    (hd : decl ∈ unit.decls) {entry : ClassEntry} (registered : c.db.classAt? decl.place = some entry) :
    entry.fullName = Scope.join (decl.site.scopePath ++ [decl.spelling]) ∧
      ((∀ t ∈ c.db.types, t.kind = .aliasType ∨ t.kind = .enumType →
          ¬ (t.scopePath = decl.site.scopePath ∧ t.name = decl.spelling)) →
        ∀ (tree : TypeTree) (written : Written) (scope : List String),
          tree.base = .named written .record (some decl.site) →
            ((TypeSource.reported tree).resolve c.db.types scope).fullName = entry.fullName ∧
            ((TypeSource.reported tree).resolve c.db.types scope).kind = entry.record.key.typeKind ∧
            ((TypeSource.reported tree).resolve c.db.types scope).bestEffort = false) := by
  have hS := Spelled.of_units placed spelled
  obtain ⟨hnamed, htabled⟩ := wf.reached_keeps (P := Database.Tabled) (fun hs h => hs.tabled hS h)
    (Named.empty _ base roots) (.empty base roots) reached
  have hsite : SitesOf units decl.site := ⟨unit, hu, decl, hd, rfl⟩
  have hmark := c.db.classAt?_name decl.place
  rw [registered] at hmark
  have hdeclares : decl.site.Declares entry.fullName := hnamed.classes.markAt? hsite hmark.symm
  obtain ⟨hname, hids⟩ := hS.declares wf.terrain hsite hdeclares
  refine ⟨hname, ?_⟩
  intro hfree tree written scope hb
  have hnameable : decl.site.Nameable := by
    refine ⟨?_, ?_, (hids decl.spelling (List.mem_append_right _ (List.mem_singleton.mpr rfl))).nonempty⟩
    · intro hk
      have := hdeclares.1
      simp [hk, NodeKind.isClass] at this
    · intro hk
      have := hdeclares.1
      simp [hk, NodeKind.isClass] at this
  have hfind := htabled.find?_class (List.mem_of_find?_eq_some registered) hname hids hfree
  rw [TypeSource.resolve_named hb hnameable hfind scope]
  exact ⟨rfl, rfl, rfl⟩

namespace InnerClass

def linkage : Decl := (Decl.wholeFile 0).within 1 .linkageSpec ""
def outer : Decl := linkage.within 2 .namespaceDecl "N"
def whole : Decl := { outer.within 3 .classTemplate "A" with templated := .structDecl }
def inner : Decl := whole.within 4 .classDecl "B"

-- `extern "C++" { namespace N { template <..> struct A { class B; }; } }`
def unit : SourceUnit where
  root := .wholeFile 0
  forest := .ofList [(linkage, .ofList [(outer, .ofList [(whole, .ofList [(inner, .nil)])])])]

def state : Collector := (Collector.start "/" [] {}).collectAll [unit]

def use : TypeTree := .reference {} false (.pointer {} (.elaborated {} (.named {} .record (some inner.site))))

end InnerClass

open InnerClass in
theorem inner_class_resolves :
    ((TypeSource.reported use).resolve state.db.types ["N", "C"]).fullName = "::N::A::B" ∧
      ((TypeSource.reported use).resolve state.db.types ["N", "C"]).kind = .classType ∧
      ((TypeSource.reported use).resolve state.db.types ["N", "C"]).bestEffort = false := by
  have wf : WellFormed [unit] := by decide
  obtain ⟨entry, hentry⟩ : ∃ entry, state.db.classAt? inner.place = some entry := ⟨_, rfl⟩
  have hkey : entry.record.key.typeKind = .classType := by
    have h : (state.db.classAt? inner.place).map (·.record.key.typeKind) = some .classType := rfl
    rw [hentry] at h
    exact Option.some.inj h
  have hpath : Scope.join (inner.site.scopePath ++ [inner.spelling]) = "::N::A::B" := rfl
  obtain ⟨hname, hresolve⟩ := class_names_agree wf (by decide) (by decide) (.done [unit]) (List.mem_singleton.mpr rfl)
    (by decide) hentry
  obtain ⟨h1, h2, h3⟩ := hresolve (by decide) use {} ["N", "C"] rfl
  rw [hname, hpath] at h1
  rw [hkey] at h2
  exact ⟨h1, h2, h3⟩

namespace HiddenScope

def whole : Decl := (Decl.wholeFile 0).within 1 .structDecl "A"
def tagged : Decl := whole.within 2 .unionDecl "u"
def linkage : Decl := tagged.within 3 .linkageSpec ""
def inner : Decl := linkage.within 4 .namespaceDecl "N"
def part : Decl := inner.within 5 .structDecl "B"

-- `struct A { union u { extern "C++" { namespace N { struct B; } } }; };`
def unit : SourceUnit where
  root := .wholeFile 0
  forest := .ofList [(whole, .ofList [(tagged, .ofList [(linkage, .ofList [(inner, .ofList [(part, .nil)])])])])]

end HiddenScope

-- a namespace under a union is filed as a global one, but its path goes through the union
open HiddenScope in
theorem class_name_beside_path :
    WellFormed [unit] ∧ NamespacesDirect [unit] ∧ ScopesSpelled [unit] ∧
      ∃ entry, ((Collector.start "/" [] {}).collectAll [unit]).db.classAt? part.place = some entry ∧
        entry.fullName = "::N::B" ∧ Scope.join (part.site.scopePath ++ [part.spelling]) = "::A::u::N::B" :=
  ⟨by decide, by decide, by decide, _, rfl, rfl, rfl⟩

end SymbolIndex
