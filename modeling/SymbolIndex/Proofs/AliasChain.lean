import Mathlib.Algebra.Ring.Int.Defs
import SymbolIndex.Proofs.Erasure
import SymbolIndex.Proofs.Layers
import SymbolIndex.Proofs.Run
import SymbolIndex.Proofs.SplitJoin
import SymbolIndex.Proofs.TypeTable

/-!
# Chains of aliases

An alias takes over what its target came down to and adds its own layers. Along a chain of aliases the
layers of all links add up, each counted once, and the name stays that of the first link's target.
-/

namespace SymbolIndex

/-! ## Events in between -/

namespace Collector

/-- Some events lead from one state to another. What leaves the database alone counts for nothing. -/
inductive Leads (c : Collector) : Collector → Prop where
  | refl : Leads c c
  | event {c₁ : Collector} (before : Leads c c₁) (decl : Decl) (parent : Site) :
      Leads c (c₁.visit decl parent).collector
  | aside {c₁ c₂ : Collector} (before : Leads c c₁) (same : c₂.db = c₁.db) : Leads c c₂

theorem Leads.trans {a b c : Collector} (h : a.Leads b) (h' : b.Leads c) : a.Leads c := by
  induction h' with
  | refl => exact h
  | event _ decl parent ih => exact .event ih decl parent
  | aside _ same ih => exact .aside ih same

theorem Leads.types {c c' : Collector} (h : c.Leads c') : ∃ new, c'.db.types = c.db.types ++ new := by
  induction h with
  | refl => exact ⟨[], by simp⟩
  | @event c₁ _ decl parent ih =>
    obtain ⟨new, hnew⟩ := ih
    obtain ⟨new', hnew'⟩ := c₁.types_visit decl parent
    exact ⟨new ++ new', by rw [hnew', hnew, List.append_assoc]⟩
  | aside _ same ih =>
    rw [same]
    exact ih

theorem Leads.listed {c c' : Collector} (h : c.Leads c') (hl : c.db.Listed) : c'.db.Listed := by
  induction h with
  | refl => exact hl
  | @event c₁ _ decl parent ih => exact c₁.listed_visit decl parent ih
  | aside _ same ih =>
    rw [same]
    exact ih

theorem Leads.entryIn? {c c' : Collector} (h : c.Leads c') {a : Site} {known : TypeRef}
    (hk : a.entryIn? c.db.types = some known) : a.entryIn? c'.db.types = some known := by
  obtain ⟨new, hnew⟩ := h.types
  unfold Site.entryIn? at hk ⊢
  rw [hnew, List.find?_append, hk]
  rfl

end Collector

theorem Walks.leads {forest : Forest} {parent : Decl} {c c' : Collector} {calls : List WalkCall}
    (h : Walks forest parent c calls c') : c.Leads c' := by
  induction h with
  | nil => exact .refl
  | @pass decl parent _ _ c _ _ _ visit _ _ ih =>
    have hstep : c.Leads (c.visit decl parent.site).collector := .event .refl decl parent.site
    rw [visit] at hstep
    exact hstep.trans ih
  | @enter decl parent _ _ c _ _ _ _ _ visit _ _ _ ih₁ ih₂ =>
    have hstep : c.Leads (c.visit decl parent.site).collector := .event .refl decl parent.site
    rw [visit] at hstep
    exact (hstep.trans ih₁).trans ih₂

theorem Collector.Leads.of_collect {c c' : Collector} {unit : SourceUnit} {notes : List Note} {finished : Bool}
    (h : c.collect unit = ((c', notes), .ok finished)) : c.Leads c' := by
  obtain ⟨-, calls, hw⟩ := Walks.of_walk h
  have hclosed : c.Leads c.closeTemplates := .aside .refl rfl
  exact hclosed.trans hw.leads

/-! ## One alias -/

namespace Collector

/-- An alias that is about to be registered, in a registered scope, and that the type table does not
know yet. -/
structure Aliases (c : Collector) (decl : Decl) (parent : Site) : Prop where
  kind : decl.kind = .typedefDecl ∨ decl.kind = .typeAliasDecl
  counted : c.includes (c.fileOf decl) = true
  scope : c.db.scopeName? parent.chain = some (Scope.join decl.site.scopePath)
  identifiers : ∀ p ∈ decl.site.scopePath ++ [decl.spelling], Identifier p
  fresh : ∀ t ∈ c.db.types, ¬ (t.scopePath = decl.site.scopePath ∧ t.name = decl.spelling)

variable {c : Collector} {decl : Decl} {parent : Site}

theorem Aliases.nameable (h : c.Aliases decl parent) : decl.site.Nameable := by
  have hk : decl.site.kind = .typedefDecl ∨ decl.site.kind = .typeAliasDecl := h.kind
  refine ⟨?_, ?_, (h.identifiers decl.spelling (List.mem_append_right _ (List.mem_singleton.mpr rfl))).nonempty⟩
  · intro hn
    simp [hn] at hk
  · intro hn
    simp [hn] at hk

def aliasOf (c : Collector) (decl : Decl) : TypeRef :=
  (c.aliasEntry decl.spelling decl.site.scopePath (TypeRef.ofTree decl.underlying)).1

theorem aliasEntry_key (c : Collector) (name : String) (scope : List String) (target : TypeRef) :
    (c.aliasEntry name scope target).1.name = name ∧ (c.aliasEntry name scope target).1.scopePath = scope := by
  unfold aliasEntry
  simp only
  split
  · exact ⟨rfl, rfl⟩
  · split <;> exact ⟨rfl, rfl⟩

theorem Aliases.visitAlias_types (h : c.Aliases decl parent) :
    (c.visitAlias decl parent).collector.db.types = c.db.types ++ [c.aliasOf decl] := by
  have hsplit : Scope.split (Scope.join decl.site.scopePath) = decl.site.scopePath :=
    Scope.split_join fun p hp => h.identifiers p (List.mem_append_left _ hp)
  have hnew : c.db.knowsType (c.aliasOf decl) = false := by
    rw [Database.knowsType, List.any_eq_false]
    intro t ht hsame
    obtain ⟨hname, hpath⟩ := c.aliasEntry_key decl.spelling decl.site.scopePath (TypeRef.ofTree decl.underlying)
    simp only [TypeRef.sameEntry, Bool.and_eq_true, beq_iff_eq] at hsame
    refine h.fresh t ht ⟨?_, ?_⟩
    · rw [← hsame.1.1.1]
      exact hpath
    · rw [← hsame.1.2]
      exact hname
  unfold visitAlias
  rw [h.scope]
  simp only
  rw [hsplit]
  have hadd : c.db.addType (c.aliasOf decl) = { c.db with types := c.db.types ++ [c.aliasOf decl] } := by
    rw [Database.addType, hnew]
    rfl
  exact congrArg Database.types hadd

theorem Aliases.visit_types (h : c.Aliases decl parent) :
    (c.visit decl parent).collector.db.types = c.db.types ++ [c.aliasOf decl] := by
  rcases c.visit_cases decl parent with ⟨hi, -⟩ | ⟨-, c', d, -, ht, -⟩ | ⟨-, c', ha, -, -, hv⟩
  · rw [h.counted] at hi
    cases hi
  · rcases h.kind with hk | hk <;> simp [takes, hk] at ht
  · have htypes := Database.types_of_outline ha.outline
    have h' : c'.Aliases decl parent := by
      refine ⟨h.kind, ?_, ?_, h.identifiers, ?_⟩
      · rw [ha.includes, ha.fileOf]
        exact h.counted
      · rw [Database.scopeName?_of_outline ha.outline]
        exact h.scope
      · rw [htypes]
        exact h.fresh
    have hdecl : c'.visitDecl decl parent = c'.visitAlias decl parent := by
      unfold visitDecl
      rcases h.kind with hk | hk <;> rw [hk]
    have hsame : FindSame c.db.types c'.db.types decl.site.scopePath decl.underlying := by
      rw [FindSame, htypes]
    rw [hv, hdecl, h'.visitAlias_types, htypes, aliasOf, aliasOf, aliasEntry_congr hsame]

theorem Aliases.entryIn? (h : c.Aliases decl parent) :
    decl.site.entryIn? (c.visit decl parent).collector.db.types = some (c.aliasOf decl) := by
  obtain ⟨hname, hpath⟩ := c.aliasEntry_key decl.spelling decl.site.scopePath (TypeRef.ofTree decl.underlying)
  have hnone : c.db.types.find? (fun known => known.name == decl.site.spelling &&
      known.scopePath == decl.site.scopePath) = none := by
    rw [List.find?_eq_none]
    intro t ht hkey
    simp only [Bool.and_eq_true, beq_iff_eq] at hkey
    exact h.fresh t ht ⟨hkey.2, hkey.1⟩
  unfold Site.entryIn?
  rw [h.visit_types, List.find?_append, hnone]
  have hkey : (c.aliasOf decl).name = decl.site.spelling ∧ (c.aliasOf decl).scopePath = decl.site.scopePath :=
    ⟨hname, hpath⟩
  simp [hkey]

end Collector

/-! ## Targets -/

namespace Database

inductive RegisteredAt (db : Database) (place : Place) : TypeRef → Prop where
  | ofClass {entry : ClassEntry} (known : db.classAt? place = some entry) : RegisteredAt db place entry.tableEntry
  | ofEnum {entry : EnumEntry} (known : db.enumAt? place = some entry) : RegisteredAt db place entry.tableEntry

/-- What a type at the bottom of a chain may be, with its full name and template arguments: a builtin
type, or a class or enum registered under its own path and name, where no other type is known. -/
inductive Targets (db : Database) : TypeTree → String → String → Prop where
  | builtin (written : Written) (type : Builtin) : Targets db (.builtin written type) type.name ""
  | declared {written : Written} {kind : NamedKind} {a : Site} {known : TypeRef}
      (sort : a.kind.isClass = true ∨ a.kind = .enumDecl) (registered : db.RegisteredAt a.place known)
      (name : known.name = a.spelling) (fullName : known.fullName = Scope.join (a.scopePath ++ [a.spelling]))
      (identifiers : ∀ p ∈ a.scopePath ++ [a.spelling], Identifier p)
      (sole : ∀ t ∈ db.types, t.scopePath = a.scopePath ∧ t.name = a.spelling → t = known) :
      Targets db (.named written kind (some a)) known.fullName written.arguments

theorem RegisteredAt.eq_declaredType {db : Database} {place : Place} {known : TypeRef}
    (h : db.RegisteredAt place known) : ∃ name fullName kind, known = declaredType name fullName kind := by
  cases h with
  | ofClass _ => exact ⟨_, _, _, rfl⟩
  | ofEnum _ => exact ⟨_, _, _, rfl⟩

theorem RegisteredAt.mem_types {db : Database} {place : Place} {known : TypeRef} (h : db.RegisteredAt place known)
    (hl : db.Listed) : known ∈ db.types := by
  cases h with
  | ofClass hat => exact hl.mem_types (List.mem_of_find?_eq_some hat)
  | ofEnum hat => exact hl.enums _ (List.mem_of_find?_eq_some hat)

theorem RegisteredAt.entryIn? {db : Database} {a : Site} {known : TypeRef} (h : db.RegisteredAt a.place known)
    (hl : db.Listed) (hname : known.name = a.spelling)
    (hfull : known.fullName = Scope.join (a.scopePath ++ [a.spelling]))
    (hids : ∀ p ∈ a.scopePath ++ [a.spelling], Identifier p)
    (hsole : ∀ t ∈ db.types, t.scopePath = a.scopePath ∧ t.name = a.spelling → t = known) :
    a.entryIn? db.types = some known := by
  have hpath : known.scopePath = a.scopePath := by
    obtain ⟨name, fullName, kind, rfl⟩ := h.eq_declaredType
    simp only [declaredType] at hfull ⊢
    rw [hfull]
    exact Scope.split_parent_join hids
  unfold Site.entryIn?
  cases hf : db.types.find? fun known => known.name == a.spelling && known.scopePath == a.scopePath with
  | none =>
    have := List.find?_eq_none.mp hf known (h.mem_types hl)
    simp [hname, hpath] at this
  | some t =>
    have hkey := List.find?_some hf
    simp only [Bool.and_eq_true, beq_iff_eq] at hkey
    rw [hsole t (List.mem_of_find?_eq_some hf) ⟨hkey.2, hkey.1⟩]

end Database

theorem Database.Targets.fullName_ne {db : Database} {type : TypeTree} {fullName arguments : String}
    (h : db.Targets type fullName arguments) : fullName ≠ "" := by
  cases h with
  | builtin written type => exact type.name_ne
  | @declared written kind a known sort registered name fullName =>
    rw [fullName, Scope.join_append_singleton]
    intro hempty
    have := congrArg String.length hempty
    simp only [String.length_append] at this
    have hlen : "::".length = 2 := rfl
    have hzero : "".length = 0 := rfl
    omega

/-! ## Chains -/

/-- Aliases registered one after the other, newest first, with any events in between. The first one
has a target that is known, each further one is an alias of the one before. -/
inductive AliasChain (c₀ : Collector) (fullName arguments : String) : List Decl → Collector → Prop where
  | first {c : Collector} {decl : Decl} {parent : Site} (before : c₀.Leads c) (here : c.Aliases decl parent)
      (target : c.db.Targets decl.underlying.base fullName arguments) :
      AliasChain c₀ fullName arguments [decl] (c.visit decl parent).collector
  | further {c : Collector} {decl last : Decl} {older : List Decl} {parent : Site} {written : Written}
      (chain : AliasChain c₀ fullName arguments (last :: older) c) (here : c.Aliases decl parent)
      (target : decl.underlying.base = .named written .typedef (some last.site)) (plain : written.arguments = "") :
      AliasChain c₀ fullName arguments (decl :: last :: older) (c.visit decl parent).collector
  | between {c c' : Collector} {decls : List Decl} (chain : AliasChain c₀ fullName arguments decls c)
      (events : c.Leads c') : AliasChain c₀ fullName arguments decls c'

/-- A table entry comes down to a name, with the layers of some aliases on top. -/
structure TypeRef.Sums (known : TypeRef) (fullName arguments : String) (decls : List Decl) : Prop where
  kind : known.kind = .aliasType
  fullName : known.fullName = fullName
  arguments : known.templateArguments = arguments
  isConst : known.isConst = decls.any (·.underlying.anyConst)
  pointers : known.pointers = (decls.map (·.underlying.pointerLayers)).sum
  references : known.references = (decls.map (·.underlying.referenceLayers)).sum

namespace Collector

variable {c : Collector} {decl : Decl} {fullName arguments : String}

theorem sums_aliasOf_builtin {written : Written} {type : Builtin} (hb : decl.underlying.base = .builtin written type) :
    (c.aliasOf decl).Sums type.name "" [decl] := by
  rw [aliasOf, TypeRef.ofTree_builtin hb]
  constructor <;> simp [aliasEntry, TypeRef.addLayer]

theorem sums_aliasOf_declared {written : Written} {kind : NamedKind} {a : Site} {name full : String} {tk : TypeKind}
    (hb : decl.underlying.base = .named written kind (some a)) (ha : a.Nameable)
    (hfound : a.entryIn? c.db.types = some (Database.declaredType name full tk)) :
    (c.aliasOf decl).Sums full written.arguments [decl] := by
  have hfind := TypeRef.findIn?_named hb ha hfound decl.site.scopePath
  rw [aliasOf, aliasEntry, hfind, TypeRef.ofTree_named hb ha]
  constructor <;> simp [TypeRef.addLayer, Database.declaredType]

theorem sums_aliasOf_alias {written : Written} {last : Decl} {older : List Decl} {known : TypeRef}
    (hb : decl.underlying.base = .named written .typedef (some last.site)) (hplain : written.arguments = "")
    (hlast : last.site.Nameable) (hfound : last.site.entryIn? c.db.types = some known)
    (hs : known.Sums fullName arguments (last :: older)) :
    (c.aliasOf decl).Sums fullName arguments (decl :: last :: older) := by
  have hfind := TypeRef.findIn?_named hb hlast hfound decl.site.scopePath
  rw [aliasOf, aliasEntry, hfind, TypeRef.ofTree_named hb hlast]
  constructor
  · rfl
  · exact hs.fullName
  · simp [TypeRef.addLayer, hplain, hs.arguments]
  · simp [TypeRef.addLayer, hs.isConst, Bool.or_comm]
  · simp [TypeRef.addLayer, hs.pointers]
    omega
  · simp [TypeRef.addLayer, hs.references]
    omega

end Collector

theorem AliasChain.nameable {c₀ c : Collector} {fullName arguments : String} {decls : List Decl}
    (h : AliasChain c₀ fullName arguments decls c) : ∀ decl ∈ decls, decl.site.Nameable := by
  induction h with
  | first _ here _ =>
    intro decl hm
    rw [List.mem_singleton.mp hm]
    exact here.nameable
  | further _ here _ _ ih =>
    intro decl hm
    rcases List.mem_cons.mp hm with rfl | hm
    · exact here.nameable
    · exact ih decl hm
  | between _ _ ih => exact ih

theorem AliasChain.sums {c₀ c : Collector} {fullName arguments : String} {decls : List Decl} (hl : c₀.db.Listed)
    (h : AliasChain c₀ fullName arguments decls c) :
    fullName ≠ "" ∧ ∃ newest ∈ decls.head?, ∃ known, newest.site.entryIn? c.db.types = some known ∧
      known.Sums fullName arguments decls := by
  induction h with
  | @first c decl parent before here target =>
    refine ⟨target.fullName_ne, decl, rfl, c.aliasOf decl, here.entryIn?, ?_⟩
    generalize hb : decl.underlying.base = base at target
    cases target with
    | builtin written type => exact Collector.sums_aliasOf_builtin hb
    | @declared written kind a known sort registered name full identifiers sole =>
      have hfound := registered.entryIn? (before.listed hl) name full identifiers sole
      have ha : a.Nameable := by
        refine ⟨?_, ?_, (identifiers a.spelling (List.mem_append_right _ (List.mem_singleton.mpr rfl))).nonempty⟩
        · intro hk
          simp [hk, NodeKind.isClass] at sort
        · intro hk
          simp [hk, NodeKind.isClass] at sort
      obtain ⟨name, full, tk, rfl⟩ := registered.eq_declaredType
      exact Collector.sums_aliasOf_declared hb ha hfound
  | @further c decl last older parent written chain here target plain ih =>
    obtain ⟨hne, newest, hnewest, known, hfound, hsums⟩ := ih
    obtain rfl : last = newest := by simpa using hnewest
    have hlast := chain.nameable last (List.mem_cons_self ..)
    exact ⟨hne, decl, rfl, c.aliasOf decl, here.entryIn?,
      Collector.sums_aliasOf_alias target plain hlast hfound hsums⟩
  | between _ events ih =>
    obtain ⟨hne, newest, hnewest, known, hfound, hsums⟩ := ih
    exact ⟨hne, newest, hnewest, known, events.entryIn? hfound, hsums⟩

/-- **Aliases accumulate.** A use of the newest alias of a chain resolves to the chain's target: under
its full name, with the template arguments of the use or else of the first link, and with every
pointer, reference and `const` of all links and of the use, each counted once. -/
theorem alias_chain_accumulates {base : String} {roots : List String} {c : Collector} {fullName arguments : String}
    {newest : Decl} {older : List Decl}
    (chain : AliasChain (.start base roots {}) fullName arguments (newest :: older) c) {use : TypeTree}
    {written : Written} (named : use.base = .named written .typedef (some newest.site)) (name : String)
    (scope : List String) :
    resolveParameter use c.db.types name scope = .ok
      { typeName := fullName ++ (if written.arguments = "" then arguments else written.arguments)
        name := name
        isConst := use.anyConst || (newest :: older).any (·.underlying.anyConst)
        pointers := use.pointerLayers + ((newest :: older).map (·.underlying.pointerLayers)).sum
        references := use.referenceLayers + ((newest :: older).map (·.underlying.referenceLayers)).sum
        typeAlias := some newest.spelling } := by
  obtain ⟨hne, decl, hdecl, known, hfound, hsums⟩ := chain.sums (.empty base roots)
  obtain rfl : newest = decl := by simpa using hdecl
  have hvalid : use.isInvalid = false := TypeTree.isInvalid_eq_false_of_base (by rw [named]; rfl)
  have hnameable := chain.nameable newest (List.mem_cons_self ..)
  rw [resolveParameter, hvalid, TypeSource.resolve_named named hnameable hfound scope, TypeRef.ofTree_named named hnameable]
  simp only [Parameter.ofType, TypeRef.refineBy, TypeRef.addLayer, TypeRef.canonicalName, hsums.kind, hsums.fullName,
    hsums.arguments, hsums.isConst, hsums.pointers, hsums.references, hne, if_false, if_true, Bool.false_eq_true]
  rfl

namespace BoxAliases

def outer : Decl := (Decl.wholeFile 0).within 1 .namespaceDecl "N"
def box : Decl := outer.within 2 .classTemplate "Box"

-- `namespace N { template <..> class Box; }`
def unit : SourceUnit := ⟨.wholeFile 0, .ofList [(outer, .ofList [(box, .nil)])]⟩

def outer' : Decl := (Decl.wholeFile 3).within 4 .namespaceDecl "N"

-- `typedef Box<int> *A;`, in the namespace.
def first : Decl :=
  { outer'.within 5 .typedefDecl "A" with
    underlying := .pointer {} (.named ⟨"N::Box<int>", false⟩ .record (some box.site)) }

-- `typedef const N::A &B;`
def second : Decl :=
  { (Decl.wholeFile 3).within 6 .typedefDecl "B" with
    underlying := .reference {} false (.elaborated ⟨"const N::A", true⟩ (.named ⟨"A", false⟩ .typedef (some first.site))) }

def afterBox : Collector := ((Collector.start "/" [] {}).collect unit).1.1
def afterNamespace : Collector := (afterBox.visit outer' (Decl.wholeFile 3).site).collector
def afterFirst : Collector := (afterNamespace.visit first outer'.site).collector
def afterSecond : Collector := (afterFirst.visit second (Decl.wholeFile 3).site).collector

def boxEntry : ClassEntry where
  record := { name := "Box", fullName := "::N::Box", key := .classKey }
  access := .owner
  places := [box.place]

-- `B *`
def use : TypeTree := .pointer {} (.named ⟨"B", false⟩ .typedef (some second.site))

end BoxAliases

open BoxAliases in
theorem box_aliases_accumulate :
    resolveParameter use afterSecond.db.types "p" ["M"] = .ok
      { typeName := "::N::Box<int>", name := "p", isConst := true, pointers := 2, references := 1,
        typeAlias := some "B" } := by
  have walked : (Collector.start "/" [] {}).collect unit = ((afterBox, []), .ok true) := rfl
  have registered : afterNamespace.db.RegisteredAt box.site.place boxEntry.tableEntry := .ofClass rfl
  have target : afterNamespace.db.Targets first.underlying.base "::N::Box" "<int>" :=
    .declared (Or.inl rfl) registered rfl rfl (by decide) (by decide)
  have chain : AliasChain (.start "/" [] {}) "::N::Box" "<int>" [first] afterFirst :=
    .first (.event (.of_collect walked) outer' (Decl.wholeFile 3).site) ⟨Or.inl rfl, rfl, rfl, by decide, by decide⟩ target
  have chain' : AliasChain (.start "/" [] {}) "::N::Box" "<int>" [second, first] afterSecond :=
    .further chain ⟨Or.inl rfl, rfl, rfl, by decide, by decide⟩ rfl rfl
  have named : use.base = .named ⟨"B", false⟩ .typedef (some second.site) := rfl
  exact alias_chain_accumulates chain' named "p" ["M"]

/-! ## Where an alias does not come down to its target

An enum in a union is filed as a global one, so its own path does not lead to it; template arguments
at the use take the place of the first link's; a namespace taken for another one gives the alias that
one's path; and an alias in a file that does not count is not registered at all. -/

namespace LostAliases

def called (serial : Nat) (around : Decl) (type : TypeTree) : Decl :=
  { around.within serial .typedefDecl "T" with underlying := type }

def typeName (roots : List String) (unit : SourceUnit) (spelling : String) (decl : Decl) : Option String :=
  let table := ((Collector.start "/" roots {}).collectAll [unit]).db.types
  let use : TypeTree := .named ⟨spelling, false⟩ .typedef (some decl.site)
  (resolveParameter use table "" []).toOption.map Parameter.typeName

def whole : Decl := (Decl.wholeFile 0).within 1 .structDecl "A"
def tagged : Decl := whole.within 2 .unionDecl "u"
def enumeration : Decl := tagged.within 3 .enumDecl "E"
def ofEnum : Decl := called 4 (.wholeFile 0) (.named ⟨"A::u::E", false⟩ .enumeration (some enumeration.site))

-- `struct A { union u { enum E {}; }; }; typedef A::u::E T;`
def enumUnit : SourceUnit :=
  ⟨.wholeFile 0, .ofList [(whole, .ofList [(tagged, .ofList [(enumeration, .nil)])]), (ofEnum, .nil)]⟩

def box : Decl := (Decl.wholeFile 0).within 1 .classTemplate "Box"
def ofBox : Decl := called 2 (.wholeFile 0) (.named ⟨"Box<int>", false⟩ .record (some box.site))

-- `template <..> class Box; typedef Box<int> T;`
def boxUnit : SourceUnit := ⟨.wholeFile 0, .ofList [(box, .nil), (ofBox, .nil)]⟩

def shared (serial : Nat) (spelling : String) : Decl :=
  { site := ⟨⟨serial, some "same", .namespaceDecl, spelling⟩, (Decl.wholeFile 0).site.chain⟩ }
def ofInt : Decl := called 3 (shared 2 "N") (.builtin {} .int)

-- `namespace M {} namespace N { typedef int T; }`, with namespaces that are not told apart.
def sharedUnit : SourceUnit := ⟨.wholeFile 0, .ofList [(shared 1 "M", .nil), (shared 2 "N", .ofList [(ofInt, .nil)])]⟩

def elsewhere : Decl := { called 1 (.wholeFile 0) (.builtin {} .int) with file := some "/b/x.h" }

-- `typedef int T;` in a file outside the roots.
def outsideUnit : SourceUnit := ⟨.wholeFile 0, .ofList [(elsewhere, .nil)]⟩

end LostAliases

open LostAliases in
theorem alias_misses_target :
    (WellFormed [enumUnit] ∧
      (((Collector.start "/" [] {}).collectAll [enumUnit]).db.enumAt? enumeration.place).map EnumEntry.fullName =
        some "::E" ∧
      typeName [] enumUnit "T" ofEnum = some "::A::u::E") ∧
    (WellFormed [boxUnit] ∧ typeName [] boxUnit "T" ofBox = some "::Box<int>" ∧
      typeName [] boxUnit "T<char>" ofBox = some "::Box<char>") ∧
    (sharedUnit.forest.Enclosed (Decl.wholeFile 0).site ∧ typeName [] sharedUnit "T" ofInt = some "::N::T") ∧
    (WellFormed [outsideUnit] ∧ typeName ["/a"] outsideUnit "T" elsewhere = some "::T") :=
  ⟨⟨by decide, rfl, rfl⟩, ⟨by decide, rfl, rfl⟩,
    ⟨by decide, rfl⟩, by decide, rfl⟩

end SymbolIndex
