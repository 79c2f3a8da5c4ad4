import SymbolIndex.Proofs.Layers
import SymbolIndex.Proofs.SplitJoin
import SymbolIndex.Proofs.TypeTable
import SymbolIndex.Proofs.Writes

/-!
# The ledger of a database

The ledger holds the type table and what stands for each scope and enum: the names of the namespaces,
and the table entries of classes and enums. Of all that events write only four things show in it: a
new namespace, class, enum or alias.
-/

namespace SymbolIndex

structure Ledger where
  types : List TypeRef
  namespaces : List String
  classes : List TypeRef
  enums : List TypeRef

def Ledger.scopes (l : Ledger) : List String := "" :: (l.namespaces ++ l.classes.map TypeRef.fullName)

namespace Database

def ledger (db : Database) : Ledger where
  types := db.types
  namespaces := db.namespaces.map NamespaceEntry.fullName
  classes := db.classes.map ClassEntry.tableEntry
  enums := db.enums.map EnumEntry.tableEntry

theorem ledger_of_outline {db db' : Database} (ho : db'.outline = db.outline) : db'.ledger = db.ledger := by
  rw [ledger, types_of_outline ho, namespaces_of_outline ho, enums_of_outline ho, tableEntries_of_outline ho]
  rfl

theorem ledger_updateClass (db : Database) (fullName : String) {change : ClassEntry → ClassEntry}
    (h : ∀ e, (change e).tableEntry = e.tableEntry) : (db.updateClass fullName change).ledger = db.ledger := by
  rw [ledger, updateClass_tableEntries db fullName h]
  rfl

theorem ledger_addNamespace (db : Database) (name fullName : String) (place : Place) :
    (db.addNamespace name fullName place).ledger =
      if fullName ∈ db.ledger.namespaces then db.ledger
      else { db.ledger with namespaces := db.ledger.namespaces ++ [fullName] } := by
  have hnames : ∀ d : Database, d.ledger.namespaces = (d.namespaces.map NamespaceEntry.ns).map Namespace.fullName := by
    intro d
    rw [List.map_map]
    rfl
  have hknown : db.namespaces.any (·.fullName == fullName) = true ↔ fullName ∈ db.ledger.namespaces := by
    simp [ledger]
  have hnew := hnames (db.addNamespace name fullName place)
  rw [addNamespace_records] at hnew
  have hrest : (db.addNamespace name fullName place).ledger =
      { db.ledger with namespaces := (db.addNamespace name fullName place).ledger.namespaces } := by
    rw [addNamespace_eq]
    rfl
  rw [hrest, hnew]
  by_cases h : fullName ∈ db.ledger.namespaces
  · rw [if_pos h, if_pos (hknown.mpr h), ← hnames]
  · rw [if_neg h, if_neg (mt hknown.mp h), List.map_append, ← hnames]
    rfl

theorem ledger_addClass (db : Database) (c : Class) (place : Place) (access : Access) :
    (db.addClass c place access).db.ledger =
      if c.fullName ∈ db.ledger.classes.map TypeRef.fullName then db.ledger
      else { db.ledger with
        types := db.ledger.types ++ [declaredType c.name c.fullName c.key.typeKind]
        classes := db.ledger.classes ++ [declaredType c.name c.fullName c.key.typeKind] } := by
  have hknown : (db.findClass? c.fullName).isSome = true ↔ c.fullName ∈ db.ledger.classes.map TypeRef.fullName := by
    simp [findClass?, ledger, ClassEntry.tableEntry, declaredType]
  unfold addClass
  split
  · rename_i entry hfound
    rw [if_pos (hknown.mp (by rw [hfound]; rfl)), ledger_updateClass _ _ fun e => redeclare_tableEntry e c place access]
  · rename_i hnone
    rw [if_neg (mt hknown.mpr (by rw [hnone]; simp))]
    simp only [ledger, List.map_append]
    rfl

theorem ledger_addEnum (db : Database) (e : Enum) (place : Place) :
    (db.addEnum e place).ledger =
      if e.fullName ∈ db.ledger.enums.map TypeRef.fullName then db.ledger
      else { db.ledger with
        types := db.ledger.types ++ [declaredType e.name e.fullName .enumType]
        enums := db.ledger.enums ++ [declaredType e.name e.fullName .enumType] } := by
  have hknown : db.enums.any (·.fullName == e.fullName) = true ↔ e.fullName ∈ db.ledger.enums.map TypeRef.fullName := by
    simp [ledger, EnumEntry.tableEntry, declaredType]
  unfold addEnum
  by_cases h : e.fullName ∈ db.ledger.enums.map TypeRef.fullName
  · rw [if_pos h, if_pos (hknown.mpr h)]
  · rw [if_neg h, if_neg (mt hknown.mp h)]
    simp only [ledger, List.map_append]
    rfl

theorem addConstantTo_map {α : Type} {view : EnumEntry → α}
    (h : ∀ (entry : EnumEntry) (constants : List (String × Int)),
      view { entry with record := { entry.record with constants := constants } } = view entry)
    (place : Place) (name : String) (value : Int) : ∀ enums : List EnumEntry,
      (addConstantTo place name value enums).map view = enums.map view
  | [] => rfl
  | entry :: rest => by
    unfold addConstantTo
    by_cases hd : entry.declaredAt place = true
    · rw [if_pos hd, List.map_cons, h, List.map_cons]
    · rw [if_neg hd, List.map_cons, addConstantTo_map h place name value rest, List.map_cons]

theorem ledger_addConstant (db : Database) (place : Place) (name : String) (value : Int) :
    (db.addConstant place name value).ledger = db.ledger := by
  have hsame : (addConstantTo place name value db.enums).map EnumEntry.tableEntry =
      db.enums.map EnumEntry.tableEntry := addConstantTo_map (fun _ _ => rfl) place name value db.enums
  simp only [ledger, addConstant, hsame]

theorem ledger_addFunction (db : Database) (function : FreeFunction) : (db.addFunction function).ledger = db.ledger := by
  unfold addFunction
  split <;> rfl

theorem mem_scopes_of_scopeName? {db : Database} {name : String} :
    ∀ {chain : List Place}, db.scopeName? chain = some name → name ∈ db.ledger.scopes
  | [], h => by cases h
  | place :: outer, h => by
    unfold scopeName? at h
    by_cases hf : place.kind = .sourceUnit
    · rw [if_pos hf] at h
      cases h
      exact List.mem_cons_self ..
    rw [if_neg hf] at h
    by_cases hl : place.kind = .linkageSpec
    · rw [if_pos hl] at h
      exact mem_scopes_of_scopeName? h
    rw [if_neg hl] at h
    apply List.mem_cons_of_mem
    rw [List.mem_append]
    cases hn : db.namespaceAt? place with
    | some entry =>
      rw [hn] at h
      cases h
      exact Or.inl (List.mem_map_of_mem (List.mem_of_find?_eq_some hn))
    | none =>
      rw [hn] at h
      obtain ⟨entry, hc, rfl⟩ := Option.map_eq_some_iff.mp h
      have hm : entry ∈ db.classes := List.mem_of_find?_eq_some hc
      exact Or.inr (List.mem_map.mpr ⟨entry.tableEntry, List.mem_map_of_mem hm, rfl⟩)

theorem getD_scopeName?_mem_scopes (db : Database) (chain : List Place) :
    (db.scopeName? chain).getD "" ∈ db.ledger.scopes := by
  cases h : db.scopeName? chain with
  | none => exact List.mem_cons_self ..
  | some name => exact mem_scopes_of_scopeName? h

end Database

namespace Collector

theorem mem_scopes_of_classContext {c : Collector} {parent : Site} {scope : String}
    (h : c.classContext parent = .within scope) : scope ∈ c.db.ledger.scopes := by
  unfold classContext at h
  split at h
  · cases h
    exact List.mem_cons_self ..
  · split at h
    · rename_i entry hentry
      split at h
      · cases h
        have hm : entry ∈ c.db.classes := List.mem_of_find?_eq_some hentry
        apply List.mem_cons_of_mem
        rw [List.mem_append]
        exact Or.inr (List.mem_map.mpr ⟨entry.tableEntry, List.mem_map_of_mem hm, rfl⟩)
      · cases h
    · split at h
      · rename_i hscope
        cases h
        exact Database.mem_scopes_of_scopeName? hscope
      · cases h

/-! ## What shows in the ledger -/

def aliasIn (c : Collector) (decl : Decl) (scope : String) : TypeRef :=
  (c.aliasEntry decl.spelling (Scope.split scope) (.ofTree decl.underlying)).1

inductive Tallies (c : Collector) (decl : Decl) (parent : Site) : Ledger → Prop where
  | same : Tallies c decl parent c.db.ledger
  | ofNamespace (kind : decl.kind = .namespaceDecl) (named : isUnnamed decl.spelling = false) {name : String}
      (name_eq : name = (c.db.scopeName? parent.chain).getD "" ++ "::" ++ decl.spelling)
      (fresh : name ∉ c.db.ledger.namespaces) :
      Tallies c decl parent { c.db.ledger with namespaces := c.db.ledger.namespaces ++ [name] }
  | ofClass (kind : decl.kind.isClass = true) (named : isUnnamed decl.spelling = false) {scope : String}
      (context : c.classContext parent = .within scope) {entry : TypeRef}
      (entry_eq : entry =
        Database.declaredType decl.spelling (scope ++ "::" ++ decl.spelling) decl.classKey.typeKind)
      (fresh : entry.fullName ∉ c.db.ledger.classes.map TypeRef.fullName) :
      Tallies c decl parent
        { c.db.ledger with types := c.db.ledger.types ++ [entry], classes := c.db.ledger.classes ++ [entry] }
  | ofEnum (kind : decl.kind = .enumDecl) (named : isUnnamed decl.spelling = false) {entry : TypeRef}
      (entry_eq : entry = Database.declaredType decl.spelling
        ((c.db.scopeName? parent.chain).getD "" ++ "::" ++ decl.spelling) .enumType)
      (fresh : entry.fullName ∉ c.db.ledger.enums.map TypeRef.fullName) :
      Tallies c decl parent
        { c.db.ledger with types := c.db.ledger.types ++ [entry], enums := c.db.ledger.enums ++ [entry] }
  | ofAlias (kind : decl.kind = .typedefDecl ∨ decl.kind = .typeAliasDecl) {scope : String}
      (context : c.db.scopeName? parent.chain = some scope) :
      Tallies c decl parent { c.db.ledger with types := c.db.ledger.types ++ [c.aliasIn decl scope] }

section
variable {c : Collector} {decl : Decl} {parent : Site} {l : Ledger}

theorem Tallies.forall_scopes (h : c.Tallies decl parent l) {P : String → Prop} (old : ∀ name ∈ c.db.ledger.scopes, P name)
    (below : decl.kind = .namespaceDecl ∨ decl.kind.isClass = true → isUnnamed decl.spelling = false →
      ∀ scope, P scope → P (scope ++ "::" ++ decl.spelling)) :
    ∀ name ∈ l.scopes, P name := by
  cases h with
  | same => exact old
  | @ofNamespace kind named name name_eq fresh =>
    have hnew := below (Or.inl kind) named _ (old _ (c.db.getD_scopeName?_mem_scopes parent.chain))
    rw [← name_eq] at hnew
    intro n hn
    simp only [Ledger.scopes, List.mem_cons, List.mem_append, List.not_mem_nil, or_false] at hn
    rcases hn with hn | (hn | rfl) | hn
    · exact old n (by simp [Ledger.scopes, hn])
    · exact old n (by simp [Ledger.scopes, hn])
    · exact hnew
    · exact old n (by simp [Ledger.scopes, hn])
  | @ofClass kind named scope context entry entry_eq fresh =>
    have hnew := below (Or.inr kind) named scope (old _ (mem_scopes_of_classContext context))
    have hname : entry.fullName = scope ++ "::" ++ decl.spelling := by rw [entry_eq]; rfl
    rw [← hname] at hnew
    intro n hn
    simp only [Ledger.scopes, List.map_append, ← List.append_assoc, ← List.cons_append] at hn
    rcases List.mem_append.mp hn with hn | hn
    · exact old n hn
    · rw [List.mem_singleton.mp hn]
      exact hnew
  | ofEnum kind named entry_eq fresh => exact old
  | ofAlias kind context => exact old

theorem Tallies.forall_types (h : c.Tallies decl parent l) {P : TypeRef → Prop} (old : ∀ t ∈ c.db.ledger.types, P t)
    (declared : ∀ scope ∈ c.db.ledger.scopes, ∀ kind : TypeKind, kind ≠ .builtin ∧ kind ≠ .unresolved →
      P (Database.declaredType decl.spelling (scope ++ "::" ++ decl.spelling) kind))
    (ofAlias : ∀ scope, P (c.aliasIn decl scope)) : ∀ t ∈ l.types, P t := by
  have hold : ∀ {new : TypeRef}, P new → ∀ t ∈ c.db.ledger.types ++ [new], P t := by
    intro new hnew t ht
    rcases List.mem_append.mp ht with ht | ht
    · exact old t ht
    · rw [List.mem_singleton.mp ht]
      exact hnew
  cases h with
  | same => exact old
  | ofNamespace kind named name_eq fresh => exact old
  | @ofClass kind named scope context entry entry_eq fresh =>
    apply hold
    rw [entry_eq]
    apply declared scope (mem_scopes_of_classContext context)
    cases decl.classKey <;> simp [ClassKey.typeKind]
  | ofEnum kind named entry_eq fresh =>
    apply hold
    rw [entry_eq]
    exact declared _ (c.db.getD_scopeName?_mem_scopes parent.chain) _ (by simp)
  | ofAlias kind context =>
    apply hold
    exact ofAlias _

end

theorem Adds.tableEntry {c : Collector} {owner : ClassEntry} {decl : Decl} {change : ClassEntry → ClassEntry}
    (h : c.Adds owner decl change) (e : ClassEntry) : (change e).tableEntry = e.tableEntry := by
  cases h <;> rfl

theorem Writes.tallies {c : Collector} {decl : Decl} {parent : Site} {db : Database}
    (h : c.Writes decl parent db) : c.Tallies decl parent db.ledger := by
  cases h with
  | nothing => exact .same
  | ofNamespace kind named =>
    rw [Database.ledger_addNamespace]
    split
    · exact .same
    · rename_i fresh
      exact .ofNamespace kind named rfl fresh
  | ofClass scope kind named context =>
    rw [Database.ledger_addClass]
    split
    · exact .same
    · rename_i fresh
      exact .ofClass kind named context rfl fresh
  | ofEnum kind named =>
    rw [Database.ledger_addEnum]
    split
    · exact .same
    · rename_i fresh
      exact .ofEnum kind named rfl fresh
  | ofConstant kind =>
    rw [Database.ledger_addConstant]
    exact .same
  | ofAlias scope kind context =>
    unfold Database.addType
    split
    · exact .same
    · exact .ofAlias kind context
  | ofFunction signature kind free read =>
    rw [Database.ledger_addFunction]
    exact .same
  | ofMember owner kind known adds =>
    rw [Database.ledger_updateClass _ _ adds.tableEntry]
    exact .same

/-- What every new entry of the ledger keeps, every event keeps. -/
theorem ledger_keeps {P : Ledger → Prop} {c : Collector} {decl : Decl} {parent : Site}
    (tallies : ∀ (c' : Collector) (l : Ledger), c'.Tallies decl parent l → P c'.db.ledger → P l)
    (h : P c.db.ledger) : P (c.visit decl parent).collector.db.ledger := by
  apply visit_keeps (P := fun db => P db.ledger) ?_ ?_ h
  · intro db db' ho hP
    rw [Database.ledger_of_outline ho]
    exact hP
  · intro c' db hw hP
    exact tallies c' db.ledger hw.tallies hP

end Collector

/-! ## Entries of aliases -/

theorem Scope.below_ne (scope name : String) : scope ++ "::" ++ name ≠ "" := by
  intro h
  have := congrArg String.length h
  simp only [String.length_append] at this
  have hlen : "::".length = 2 := rfl
  have hzero : "".length = 0 := rfl
  omega

theorem TypeRef.label_ne (type : TypeRef) : type.label ≠ "" := by
  rw [label, Scope.join_append_singleton]
  exact Scope.below_ne _ _

theorem TypeRef.mem_of_findIn? {type known : TypeRef} {table : List TypeRef} {scope : List String}
    (h : type.findIn? table scope = some known) : known ∈ table := by
  obtain ⟨path, -, hf⟩ := List.exists_of_findSome?_eq_some h
  exact List.mem_of_find?_eq_some hf

namespace Collector

theorem aliasEntry_cases (c : Collector) (name : String) (scope : List String) (target : TypeRef) {entry : TypeRef}
    (h : (c.aliasEntry name scope target).1 = entry) :
    (target.kind = .builtin ∧ entry.fullName = target.fullName ∧ entry.bestEffort = false) ∨
    (∃ known ∈ c.db.types, entry.fullName = known.fullName ∧ entry.bestEffort = false) ∨
    (entry.fullName = (if target.fullName = "" then target.label else target.fullName) ∧ entry.bestEffort = true) := by
  unfold aliasEntry at h
  simp only at h
  split at h
  · rename_i hk
    subst h
    exact Or.inl ⟨hk, rfl, rfl⟩
  · split at h
    · rename_i known hfound
      subst h
      exact Or.inr (Or.inl ⟨known, TypeRef.mem_of_findIn? hfound, rfl, rfl⟩)
    · subst h
      exact Or.inr (Or.inr ⟨rfl, rfl⟩)

theorem aliasIn_ne (c : Collector) (decl : Decl) (scope : String) (h : ∀ t ∈ c.db.types, t.fullName ≠ "") :
    (c.aliasIn decl scope).fullName ≠ "" := by
  rcases c.aliasEntry_cases decl.spelling (Scope.split scope) (.ofTree decl.underlying) rfl with
    ⟨hk, hname, -⟩ | ⟨known, hm, hname, -⟩ | ⟨hname, -⟩
  · obtain ⟨type, htype⟩ := TypeTree.core_builtin hk
    rw [aliasIn, hname, show (TypeRef.ofTree decl.underlying).fullName = type.name from htype]
    exact type.name_ne
  · rw [aliasIn, hname]
    exact h known hm
  · rw [aliasIn, hname]
    split
    · exact TypeRef.label_ne _
    · assumption

end Collector

end SymbolIndex
