import SymbolIndex.Proofs.Coherence
import SymbolIndex.Proofs.Overloads
import SymbolIndex.Proofs.Situations

/-!
# The scopes that enums and functions are filed under

An enum or a free function is filed under the registered scope around it, and as a global one if there is
none. A walk goes below members of a class that are no scopes, such as unions, and there the scopes further
out are out of reach: the name starts at the innermost place that is no scope.
-/

namespace SymbolIndex

/-! ## Known scopes around a site -/

/-- A namespace or class, or a linkage specification, which takes the scope around it. -/
def Place.isScope (place : Place) : Bool :=
  place.kind == .namespaceDecl || place.kind.isClass || place.kind == .linkageSpec

namespace Site

/-- Names of the scopes around a site, outward to the first place that is none. -/
def knownPath (a : Site) : List String := chainPath (a.outer.takeWhile Place.isScope)

def InScopes (a : Site) : Prop := ∀ p ∈ a.outer, p.kind = .sourceUnit ∨ p.isScope = true

instance (a : Site) : Decidable a.InScopes :=
  inferInstanceAs (Decidable (∀ p ∈ a.outer, p.kind = .sourceUnit ∨ p.isScope = true))

end Site

theorem chainPath_cons {place : Place} (outer : List Place) (h : place.kind ≠ .sourceUnit) :
    chainPath (place :: outer) =
      chainPath outer ++ if place.kind.opensScope && place.spelling != "" then [place.spelling] else [] := by
  unfold chainPath
  rw [List.takeWhile_cons_of_pos (by simpa using h), List.filter_cons]
  split <;> simp

theorem chainPath_takeWhile : ∀ {chain : List Place}, (∀ p ∈ chain, p.kind = .sourceUnit ∨ p.isScope = true) →
    chainPath (chain.takeWhile Place.isScope) = chainPath chain
  | [], _ => rfl
  | place :: outer, h => by
    by_cases hf : place.kind = .sourceUnit
    · have hscope : ¬ place.isScope = true := by simp [Place.isScope, hf, NodeKind.isClass]
      rw [List.takeWhile_cons_of_neg hscope, chainPath_file _ hf]
      rfl
    · have hscope := (h place (List.mem_cons_self ..)).resolve_left hf
      rw [List.takeWhile_cons_of_pos hscope, chainPath_cons _ hf, chainPath_cons _ hf,
        chainPath_takeWhile fun p hp => h p (List.mem_cons_of_mem _ hp)]

theorem Site.InScopes.knownPath {a : Site} (h : a.InScopes) : a.knownPath = a.scopePath := chainPath_takeWhile h

section
variable {U : Site → Prop} {db : Database}

theorem Named.written_known (hU : Terrain U) (hn : Named U db)
    (hs : ∀ a, U a → a.kind = .namespaceDecl ∨ a.kind.isClass = true → Identifier a.spelling) :
    ∀ (chain : List Place) (a : Site), U a → a.chain = chain → Entered db chain →
      (writtenScope chain).getD "" = Scope.join (chainPath (chain.takeWhile Place.isScope)) ∧
        ∀ p ∈ chainPath (chain.takeWhile Place.isScope), Identifier p
  | [], a, _, hc, _ => by simp [Site.chain] at hc
  | place :: outer, a, ha, hc, he => by
    obtain ⟨rfl, rfl⟩ : a.place = place ∧ a.outer = outer := by simpa [Site.chain] using hc
    by_cases hf : a.place.kind = .sourceUnit
    · rw [writtenScope_file _ hf, List.takeWhile_cons_of_neg (by simp [Place.isScope, hf, NodeKind.isClass])]
      exact ⟨rfl, by simp [chainPath]⟩
    obtain ⟨b, hb, hob⟩ := hU.outward a ha hf
    obtain ⟨ih, hids⟩ := Named.written_known hU hn hs a.outer b hb hob.symm fun p hp => he p (List.mem_cons_of_mem _ hp)
    by_cases hl : a.place.kind = .linkageSpec
    · rw [writtenScope_linkage _ hl, List.takeWhile_cons_of_pos (by simp [Place.isScope, hl]), chainPath_linkage _ hl]
      exact ⟨ih, hids⟩
    by_cases hk : a.place.kind = .namespaceDecl ∨ a.place.kind.isClass = true
    · have hid : Identifier a.place.spelling := hs a ha hk
      rw [List.takeWhile_cons_of_pos (by simpa [Place.isScope] using Or.inl hk), chainPath_scope _ hk hid.nonempty,
        Scope.join_append_singleton, ← ih]
      constructor
      · rcases hk with hk | hk
        · rw [writtenScope_namespace _ hk]
          rfl
        · -- a class is registered only inside a scope that has a name
          obtain ⟨name, hname⟩ := Option.isSome_iff_exists.mp ((he a.place (List.mem_cons_self ..)).2 hk)
          have hwritten := (hn.classes.markAt? ha hname).2
          rw [Site.chain, writtenScope_class _ hk] at hwritten
          obtain ⟨scope, hscope, -⟩ := Option.map_eq_some_iff.mp hwritten
          rw [writtenScope_class _ hk, hscope]
          rfl
      · intro p hp
        rcases List.mem_append.mp hp with hp | hp
        · exact hids p hp
        · rw [List.mem_singleton.mp hp]
          exact hid
    · obtain ⟨hns, hcl⟩ := not_or.mp hk
      rw [writtenScope_other _ hf hl hns (by simpa using hcl),
        List.takeWhile_cons_of_neg (by simp [Place.isScope, hl, hns, hcl])]
      exact ⟨rfl, by simp [chainPath]⟩

theorem Situated.namespaceName_eq {c : Collector} {decl : Decl} {parent : Site} (h : Situated U c decl parent)
    (hs : ∀ a, U a → a.kind = .namespaceDecl ∨ a.kind.isClass = true → Identifier a.spelling) :
    c.namespaceName decl parent = Scope.join (decl.site.knownPath ++ [decl.spelling]) ∧
      ∀ p ∈ decl.site.knownPath, Identifier p := by
  obtain ⟨hscope, hids⟩ := h.named.written_known h.terrain hs parent.chain parent h.around rfl h.entered
  rw [Collector.namespaceName, h.scopeName?, Scope.join_append_singleton, Site.knownPath, h.outer, hscope]
  exact ⟨rfl, hids⟩

end

/-! ## Enums by place -/

abbrev EnumMark := String × String × Place

namespace Database

def enumMarks (db : Database) : List EnumMark := db.enums.map fun e => (e.record.name, e.fullName, e.place)

theorem enumMarks_addConstant (db : Database) (place : Place) (name : String) (value : Int) :
    (db.addConstant place name value).enumMarks = db.enumMarks :=
  addConstantTo_map (fun _ _ => rfl) place name value db.enums

end Database

theorem Collector.Writes.enumMarks {c : Collector} {decl : Decl} {parent : Site} {db : Database}
    (h : c.Writes decl parent db) :
    db.enumMarks = c.db.enumMarks ∨ (decl.kind = .enumDecl ∧ isUnnamed decl.spelling = false ∧
      db.enumMarks = c.db.enumMarks ++ [(decl.spelling, c.namespaceName decl parent, decl.place)]) := by
  cases h with
  | nothing => exact Or.inl rfl
  | ofNamespace kind named =>
    left
    unfold Database.addNamespace
    split <;> rfl
  | ofClass scope kind named context =>
    left
    unfold Database.addClass
    split <;> rfl
  | ofEnum kind named =>
    unfold Database.addEnum
    split
    · exact Or.inl rfl
    · exact Or.inr ⟨kind, named, by simp [Database.enumMarks, Collector.enumRecord, EnumEntry.fullName]⟩
  | ofConstant kind => exact Or.inl (c.db.enumMarks_addConstant ..)
  | ofAlias scope kind context =>
    left
    unfold Database.addType
    split <;> rfl
  | ofFunction signature kind free read =>
    left
    unfold Database.addFunction
    split <;> rfl
  | ofMember owner kind known adds => exact Or.inl rfl

namespace Moment

def Marks (m : Moment) (mark : EnumMark) : Prop :=
  m.decl.kind = .enumDecl ∧ isUnnamed m.decl.spelling = false ∧
    mark = (m.decl.spelling, m.before.namespaceName m.decl m.parent.site, m.decl.place)

theorem enumMarks_step (m : Moment) :
    m.after.db.enumMarks = m.before.db.enumMarks ∨
      ∃ mark, m.Marks mark ∧ m.after.db.enumMarks = m.before.db.enumMarks ++ [mark] := by
  rcases m.before.visit_writes m.decl m.parent.site with hsame | hwrites
  · exact Or.inl (congrArg Database.enumMarks hsame)
  · have ho := (m.before.offered_alike m.decl m.parent.site).outline
    have hmarks : (m.before.offered m.decl m.parent.site).db.enumMarks = m.before.db.enumMarks := by
      rw [Database.enumMarks, Database.enums_of_outline ho, Database.enumMarks]
    have hname : (m.before.offered m.decl m.parent.site).namespaceName m.decl m.parent.site =
        m.before.namespaceName m.decl m.parent.site := by
      rw [Collector.namespaceName, Database.scopeName?_of_outline ho, Collector.namespaceName]
    rcases hwrites.enumMarks with hsame | ⟨kind, named, hnew⟩
    · exact Or.inl (hsame.trans hmarks)
    · rw [hmarks, hname] at hnew
      exact Or.inr ⟨_, ⟨kind, named, rfl⟩, hnew⟩

end Moment

/-! ## Types that name an enum -/

namespace Database

/-- Every type over a declaration resolves to an enum of this full name, from any scope. -/
def ResolvesEnum (db : Database) (a : Site) (fullName : String) : Prop :=
  ∀ (tree : TypeTree) (written : Written) (kind : NamedKind) (scope : List String),
    tree.base = .named written kind (some a) →
      ((TypeSource.reported tree).resolve db.types scope).fullName = fullName ∧
      ((TypeSource.reported tree).resolve db.types scope).kind = .enumType ∧
      ((TypeSource.reported tree).resolve db.types scope).bestEffort = false

theorem find?_enum {db : Database} (hc : db.ledger.Coherent) (hs : db.ledger.Spelled) {e : EnumEntry}
    (he : e ∈ db.enums) {path : List String} {name : String} (hname : e.fullName = Scope.join (path ++ [name]))
    (hids : ∀ p ∈ path ++ [name], Identifier p)
    (hfree : ∀ t ∈ db.types, t.kind ≠ .enumType → ¬ (t.scopePath = path ∧ t.name = name)) :
    ∃ known, db.types.find? (fun known => known.name == name && known.scopePath == path) = some known ∧
      known.fullName = e.fullName ∧ known.kind = .enumType ∧ known.bestEffort = false := by
  have hlisted : db.types.filter TypeRef.ofEnum = db.enums.map EnumEntry.tableEntry := hc.enums
  have hm : e.tableEntry ∈ db.ledger.enums := List.mem_map_of_mem he
  obtain ⟨hpath, hkey⟩ : e.tableEntry.scopePath = path ∧ [e.tableEntry.name] = [name] := by
    have hfiled := hs.enums _ hm
    have hfull : e.tableEntry.fullName = Scope.join (path ++ [name]) := hname
    rw [hfiled.joined] at hfull
    exact List.append_inj' (Scope.join_injective hfiled.identifiers hids hfull) rfl
  cases hf : db.types.find? (fun known => known.name == name && known.scopePath == path) with
  | none =>
    have htypes : e.tableEntry ∈ db.types.filter TypeRef.ofEnum := by
      rw [hlisted]
      exact hm
    have hmissed := List.find?_eq_none.mp hf _ (List.mem_filter.mp htypes).1
    simp [hpath, List.singleton_inj.mp hkey] at hmissed
  | some t =>
    have ht := List.mem_of_find?_eq_some hf
    obtain ⟨htname, htpath⟩ : t.name = name ∧ t.scopePath = path := by simpa using List.find?_some hf
    have hkind : t.kind = .enumType := by
      by_contra hk
      exact hfree t ht hk ⟨htpath, htname⟩
    have hmt : t ∈ db.enums.map EnumEntry.tableEntry := by
      rw [← hlisted]
      exact List.mem_filter.mpr ⟨ht, by simp [TypeRef.ofEnum, hkind]⟩
    refine ⟨t, rfl, ?_, hkind, ?_⟩
    · rw [(hs.enums t hmt).joined, htpath, htname, hname]
    · obtain ⟨e', -, rfl⟩ := List.mem_map.mp hmt
      rfl

theorem resolvesEnum {db : Database} (hc : db.ledger.Coherent) (hs : db.ledger.Spelled) {e : EnumEntry}
    (he : e ∈ db.enums) {a : Site} (hk : a.kind = .enumDecl)
    (hname : e.fullName = Scope.join (a.scopePath ++ [a.spelling]))
    (hids : ∀ p ∈ a.scopePath ++ [a.spelling], Identifier p)
    (hfree : ∀ t ∈ db.types, t.kind ≠ .enumType → ¬ (t.scopePath = a.scopePath ∧ t.name = a.spelling)) :
    db.ResolvesEnum a e.fullName := by
  intro tree written kind scope hb
  have hnameable : a.Nameable := by
    refine ⟨by simp [hk], by simp [hk], ?_⟩
    exact (hids a.spelling (List.mem_append_right _ (List.mem_singleton.mpr rfl))).nonempty
  obtain ⟨known, hfind, hfull, hkind, hsure⟩ := find?_enum hc hs he hname hids hfree
  rw [TypeSource.resolve_named hb hnameable hfind scope]
  exact ⟨hfull, hkind, hsure⟩

end Database

/-! ## States of a run -/

structure Database.FilesEnum (db : Database) (e : EnumEntry) (decl : Decl) : Prop where
  kind : decl.kind = .enumDecl
  place : e.place = decl.place
  name : e.record.name = decl.spelling
  known : e.fullName = Scope.join (decl.site.knownPath ++ [decl.spelling])
  whole : decl.site.InScopes → e.fullName = Scope.join (decl.site.scopePath ++ [decl.spelling])
  resolves : decl.site.InScopes →
    (∀ t ∈ db.types, t.kind ≠ .enumType → ¬ (t.scopePath = decl.site.scopePath ∧ t.name = decl.spelling)) →
      db.ResolvesEnum decl.site e.fullName

section
variable {units : List SourceUnit} (wf : WellFormed units) (scopes : ScopesSpelled units) {base : String}
  {roots : List String}
include wf scopes

theorem WellFormed.namespaceName_eq {m : Moment} (hm : m ∈ (Collector.start base roots {}).history units) :
    m.before.namespaceName m.decl m.parent.site = Scope.join (m.decl.site.knownPath ++ [m.decl.spelling]) ∧
      ∀ p ∈ m.decl.site.knownPath, Identifier p := by
  have hs := wf.situated (fun _ h => h) (Named.empty (SitesOf units) base roots) m hm
  apply Situated.namespaceName_eq hs
  rintro - ⟨u, hu, d, hd, rfl⟩ hk
  exact scopes u hu d hd hk

theorem WellFormed.filesEnum (spelled : ∀ u ∈ units, ∀ d ∈ u.decls, d.WellSpelled) {state : Collector}
    (hstate : state ∈ (Collector.start base roots {}).states units) {e : EnumEntry} (he : e ∈ state.db.enums) :
    ∃ u ∈ units, ∃ decl ∈ u.decls, state.db.FilesEnum e decl := by
  obtain ⟨ms, hms, hchained⟩ := Collector.chained_of_mem_states hstate
  have hmark : (e.record.name, e.fullName, e.place) ∈ state.db.enumMarks := List.mem_map_of_mem he
  obtain ⟨i, hi⟩ := List.mem_iff_getElem?.mp hmark
  rcases hchained.origin Moment.enumMarks_step hi with hold | ⟨m, hm, ⟨hk, hnamed, heq⟩, -⟩
  · simp [Collector.start, Database.enumMarks] at hold
  simp only [Prod.mk.injEq] at heq
  obtain ⟨hname, hfull, hplace⟩ := heq
  obtain ⟨u, hu, hd⟩ := Collector.decl_of_history m (hms m hm)
  obtain ⟨hknown, hids⟩ := wf.namespaceName_eq scopes (hms m hm)
  rw [← hfull] at hknown
  have hwhole : m.decl.site.InScopes → e.fullName = Scope.join (m.decl.site.scopePath ++ [m.decl.spelling]) := by
    intro hin
    rw [hknown, hin.knownPath]
  refine ⟨u, hu, m.decl, hd, hk, hplace, hname, hknown, hwhole, ?_⟩
  intro hin hfree
  have hcoherent : state.db.ledger.Coherent := by
    refine Collector.states_invariant (P := fun db => db.ledger.Coherent) (c := .start base roots {}) ?_
      Ledger.Coherent.empty state hstate
    intro c decl parent _ h
    exact Collector.ledger_keeps (fun _ _ ht hc => ht.coherent hc) h
  have hspelled : state.db.ledger.Spelled := by
    refine Collector.states_invariant (P := fun db => db.ledger.Spelled) (c := .start base roots {}) ?_
      Ledger.Spelled.empty state hstate
    rintro c decl parent ⟨u, hu, hdecl⟩ h
    exact Collector.ledger_keeps (fun _ _ ht hc => ht.spelled (spelled u hu decl hdecl) hc) h
  apply Database.resolvesEnum hcoherent hspelled he hk (hwhole hin) ?_ hfree
  intro p hp
  rcases List.mem_append.mp hp with hp | hp
  · rw [← hin.knownPath] at hp
    exact hids p hp
  · rw [List.mem_singleton.mp hp]
    exact spelled u hu m.decl hd (Or.inr (Or.inr hk)) hnamed

theorem WellFormed.function_filed {state : Collector}
    (hstate : state ∈ (Collector.start base roots {}).states units) {i : Nat} {f : FreeFunction}
    (hf : state.db.functions[i]? = some f) :
    ∃ m ∈ (Collector.start base roots {}).history units, m.Registers ∧ m.before.db.functions.length = i ∧
      f.fullName = Scope.join (m.decl.site.knownPath ++ [m.decl.spelling]) := by
  obtain ⟨ms, hms, hchained⟩ := Collector.chained_of_mem_states hstate
  have hkey : state.db.functionKeys[i]? = some (f.fullName, f.params) := by
    rw [Database.functionKeys, List.getElem?_map, hf]
    rfl
  rcases hchained.origin Moment.functionKeys_step hkey with hold | ⟨m, hm, ⟨hregisters, hreads⟩, hlength⟩
  · simp [Collector.start, Database.functionKeys] at hold
  obtain ⟨signature, -, hread⟩ := hreads
  rw [Database.length_functionKeys] at hlength
  refine ⟨m, hms m hm, hregisters, hlength, ?_⟩
  rw [← (wf.namespaceName_eq scopes (hms m hm)).1]
  exact congrArg Prod.fst hread

end

/-- In every state of a run, enums and free functions are filed under the path of the scopes around the
declaration they were registered from, out to the first place that is no scope. Where there are only scopes
around, that is the declaration's own scope path, and unless a class or alias stands under the same path and
name, types over the declaration resolve to the enum. -/
theorem filed_under_known_scopes {base : String} {roots : List String} {units : List SourceUnit}
    (wf : WellFormed units) (scopes : ScopesSpelled units)
    (spelled : ∀ u ∈ units, ∀ d ∈ u.decls, d.WellSpelled) :
    ∀ state ∈ (Collector.start base roots {}).states units,
      (∀ e ∈ state.db.enums, ∃ u ∈ units, ∃ decl ∈ u.decls, state.db.FilesEnum e decl) ∧
      ∀ (i : Nat) (f : FreeFunction), state.db.functions[i]? = some f →
        ∃ m ∈ (Collector.start base roots {}).history units, m.Registers ∧ m.before.db.functions.length = i ∧
          f.fullName = Scope.join (m.decl.site.knownPath ++ [m.decl.spelling]) ∧
          (m.decl.site.InScopes → f.fullName = Scope.join (m.decl.site.scopePath ++ [m.decl.spelling])) := by
  intro state hstate
  constructor
  · intro e he
    exact wf.filesEnum scopes spelled hstate he
  · intro i f hf
    obtain ⟨m, hm, hregisters, hlength, hname⟩ := wf.function_filed scopes hstate hf
    refine ⟨m, hm, hregisters, hlength, hname, ?_⟩
    intro hin
    rw [hname, hin.knownPath]

namespace EnumInClass

def outer : Decl := (Decl.wholeFile 0).within 1 .namespaceDecl "N"
def linkage : Decl := outer.within 2 .linkageSpec ""
def whole : Decl := linkage.within 3 .structDecl "A"
def nested : Decl := whole.within 4 .enumDecl "E"
def function : Decl := linkage.within 5 .functionDecl "f"

-- `namespace N { extern "C++" { struct A { enum E {}; }; void f(); } }`
def unit : SourceUnit where
  root := .wholeFile 0
  forest := .ofList [(outer, .ofList [(linkage, .ofList [(whole, .ofList [(nested, .nil)]), (function, .nil)])])]

def state : Collector := ((Collector.start "/" [] {}).states [unit]).getLast (List.cons_ne_nil _ _)

end EnumInClass

open EnumInClass in
theorem enum_in_class_resolves :
    (∃ e ∈ state.db.enums, e.place = nested.place ∧ e.fullName = "::N::A::E" ∧
      state.db.ResolvesEnum nested.site "::N::A::E") ∧
    ∃ f ∈ state.db.functions, f.fullName = "::N::f" := by
  have wf : WellFormed [unit] := by decide
  obtain ⟨henums, hfunctions⟩ := filed_under_known_scopes wf (by decide) (by decide) state (List.getLast_mem _)
  constructor
  · obtain ⟨e, he⟩ : ∃ e, state.db.enums[0]? = some e := ⟨_, rfl⟩
    have hplace : e.place = nested.place := by
      have h : state.db.enums[0]?.map EnumEntry.place = some nested.place := rfl
      rw [he] at h
      exact Option.some.inj h
    have hm := List.mem_of_getElem? he
    obtain ⟨u, hu, decl, hd, hfiled⟩ := henums e hm
    have hdecl : decl = nested := by
      apply wf.eq_of_same hu (List.mem_singleton.mpr rfl) hd (by decide)
      rw [← hfiled.place, hplace]
      rfl
    subst hdecl
    have hname : e.fullName = "::N::A::E" := hfiled.whole (by decide)
    have hresolves := hfiled.resolves (by decide) (by decide)
    rw [hname] at hresolves
    exact ⟨e, hm, hplace, hname, hresolves⟩
  · obtain ⟨f, hf⟩ : ∃ f, state.db.functions[0]? = some f := ⟨_, rfl⟩
    obtain ⟨m, hm, hregisters, -, -, hname⟩ := hfunctions 0 f hf
    have honly : ∀ d ∈ unit.decls, d.kind = .functionDecl ∨ d.kind = .functionTemplate → d = function := by decide
    obtain ⟨u, hu, hd⟩ := Collector.decl_of_history m hm
    rw [List.mem_singleton.mp hu] at hd
    rw [honly m.decl hd hregisters.1.kind] at hname
    exact ⟨f, List.mem_of_getElem? hf, hname (by decide)⟩

namespace EnumInUnion

def whole : Decl := (Decl.wholeFile 0).within 1 .structDecl "A"
def tagged : Decl := whole.within 2 .unionDecl "U"
def nested : Decl := tagged.within 3 .enumDecl "E"
def template : Decl := tagged.within 4 .functionTemplate "f"

-- `struct A { union U { enum E {}; template <..> void f(); }; };`
def unit : SourceUnit where
  root := .wholeFile 0
  forest := .ofList [(whole, .ofList [(tagged, .ofList [(nested, .nil), (template, .nil)])])]

def state : Collector := (Collector.start "/" [] {}).collectAll [unit]

end EnumInUnion

open EnumInUnion in
theorem union_members_filed_as_global :
    WellFormed [unit] ∧ NamespacesDirect [unit] ∧ (∀ d ∈ unit.decls.tail, Identifier d.spelling) ∧
      state.db.enums.map EnumEntry.fullName = ["::E"] ∧
      Scope.join (nested.site.scopePath ++ [nested.spelling]) = "::A::U::E" ∧
      state.db.functions.map FreeFunction.fullName = ["::f"] ∧
      Scope.join (template.site.scopePath ++ [template.spelling]) = "::A::U::f" :=
  ⟨by decide, by decide, by decide, rfl, rfl, rfl, rfl⟩

end SymbolIndex
