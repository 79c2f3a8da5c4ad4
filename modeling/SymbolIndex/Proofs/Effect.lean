import Mathlib.Data.List.Forall2
import SymbolIndex.Proofs.Outline

/-!
# What one event does

An event opens a namespace, declares a class, extends the class around it by a member, or leaves
namespaces and classes alone. Later proofs take an event apart by these four cases and never look
into the collector again.
-/

namespace SymbolIndex

namespace NodeKind

def isClass : NodeKind → Bool
  | structDecl | classDecl | classTemplate => true
  | _ => false

def isMethod : NodeKind → Bool
  | methodDecl | functionTemplate => true
  | _ => false

def fills (kind : NodeKind) : Bool := kind == .constructorDecl || kind.isMethod || kind == .baseSpecifier

/-- The kinds that are the same wherever they stand; any other one may be a member of a class. -/
def standsAlone : NodeKind → Bool
  | namespaceDecl | typedefDecl | typeAliasDecl | enumDecl | enumConstant | linkageSpec => true
  | kind => kind.isClass

end NodeKind

def baseName (written : String) : String := withoutClassKey (beforeBracket written)

/-- A recorded base stands for a written one: it is the written name, or that name in a scope. -/
def StandsForBase (written recorded : String) : Prop :=
  recorded = baseName written ∨ ∃ parts, recorded = Scope.join parts ++ "::" ++ baseName written

structure Extends (decl : Decl) (e e' : ClassEntry) : Prop where
  fullName : e'.fullName = e.fullName
  places : e'.places = e.places
  key : e'.record.key = e.record.key
  name : e'.record.name = e.record.name
  fromFile : e'.record.fromFile = e.record.fromFile
  includePath : e'.record.includePath = e.record.includePath
  fields : ∀ field ∈ e.record.fields, field ∈ e'.record.fields
  access : e'.access = if decl.kind = .accessSpec then decl.access else e.access
  constructors : e'.record.constructors.map Method.name =
    e.record.constructors.map Method.name ++ ([decl].filter (·.kind == .constructorDecl)).map Decl.spelling
  methods : e'.record.methods.map Method.name =
    e.record.methods.map Method.name ++ ([decl].filter (·.kind.isMethod)).map Decl.spelling
  bases : ∃ added, e'.record.bases = e.record.bases ++ added ∧
    List.Forall₂ StandsForBase (([decl].filter (·.kind == .baseSpecifier)).map Decl.spelling) added

def EnumEntry.tableEntry (entry : EnumEntry) : TypeRef :=
  Database.declaredType entry.record.name entry.fullName .enumType

/-- Scopes are as they were, and the type table has got at most enums and aliases. A new enum stands where
the declaration does. -/
structure Database.Beside (db : Database) (decl : Decl) (db' : Database) : Prop where
  namespaces : db'.namespaces = db.namespaces
  classes : db'.classes = db.classes
  types : ∃ new, db'.types = db.types ++ new ∧ ∀ t ∈ new, t.kind = .enumType ∨ t.kind = .aliasType
  enums : ∀ e ∈ db'.enums, (e.tableEntry ∈ db'.types ∧ e.place = decl.place) ∨
    ∃ old ∈ db.enums, old.tableEntry = e.tableEntry ∧ old.place = e.place
  enumNames : ∃ new, db'.enums.map EnumEntry.fullName = db.enums.map EnumEntry.fullName ++ new
  functions : ∃ new, db'.functions = db.functions ++ new

theorem Database.Beside.refl (db : Database) (decl : Decl) : db.Beside decl db where
  namespaces := rfl
  classes := rfl
  types := ⟨[], by simp, by simp⟩
  enums := fun e hm => Or.inr ⟨e, hm, rfl, rfl⟩
  enumNames := ⟨[], by simp⟩
  functions := ⟨[], by simp⟩

namespace Collector

def classRecord (c : Collector) (decl : Decl) (scope : String) : Class :=
  { name := decl.spelling, fullName := scope ++ "::" ++ decl.spelling, key := decl.classKey,
    fromFile := c.fileOf decl, includePath := c.includePath (c.fileOf decl) }

def namespaceName (c : Collector) (decl : Decl) (parent : Site) : String :=
  (c.db.scopeName? parent.chain).getD "" ++ "::" ++ decl.spelling

inductive Effect (c : Collector) (decl : Decl) (parent : Site) (db : Database) : Directive → Prop where
  /-- A namespace is opened. -/
  | opened (kind : decl.kind = .namespaceDecl) (named : isUnnamed decl.spelling = false)
      (db_eq : db = c.db.addNamespace decl.spelling (c.namespaceName decl parent) decl.place) :
      Effect c decl parent db .enter
  /-- A class is declared, and entered as long as it is empty. -/
  | declared (scope : String) (kind : decl.kind.isClass = true) (named : isUnnamed decl.spelling = false)
      (context : c.classContext parent = .within scope)
      (db_eq : db = (c.db.addClass (c.classRecord decl scope) decl.place decl.classKey.access).db)
      (d : Directive)
      (entered : d = if (c.db.addClass (c.classRecord decl scope) decl.place
        decl.classKey.access).entersMembers then .enter else .pass) :
      Effect c decl parent db d
  /-- A child of a known class. -/
  | member (entry : ClassEntry) (change : ClassEntry → ClassEntry) (kind : decl.kind.standsAlone = false)
      (known : c.db.classAt? parent.place = some entry)
      (db_eq : db = c.db.updateClass entry.fullName change) (extended : ∀ e, Extends decl e (change e))
      (d : Directive) : Effect c decl parent db d
  /-- Neither a scope nor a member. -/
  | quiet (beside : c.db.Beside decl db) (other : decl.kind.standsAlone = true ∨ c.db.classAt? parent.place = none) (d : Directive)
      (leaf : d = .enter → decl.kind ≠ .namespaceDecl ∧ decl.kind.isClass = false) :
      Effect c decl parent db d

end Collector

namespace Database

theorem updateClass_id (db : Database) (fullName : String) : db.updateClass fullName id = db := by
  simp [updateClass]

theorem classLike?_name {db : Database} {name scope : String} {entry : ClassEntry}
    (h : db.classLike? name scope = some entry) :
    entry.fullName = name ∨ ∃ parts, entry.fullName = Scope.join parts ++ "::" ++ name := by
  unfold classLike? at h
  split at h
  · exact Or.inl (by simpa using List.find?_some h)
  · obtain ⟨parts, -, hp⟩ := List.exists_of_findSome?_eq_some h
    exact Or.inr ⟨parts, by simpa using List.find?_some hp⟩

end Database

theorem Extends.refl_of {decl : Decl} (hc : decl.kind ≠ .constructorDecl) (hm : decl.kind.isMethod = false)
    (hb : decl.kind ≠ .baseSpecifier) (ha : decl.kind ≠ .accessSpec) (e : ClassEntry) : Extends decl e e where
  fullName := rfl
  places := rfl
  key := rfl
  name := rfl
  fromFile := rfl
  includePath := rfl
  fields := fun _ h => h
  access := by rw [if_neg ha]
  constructors := by simp [hc]
  methods := by simp [hm]
  bases := ⟨[], by simp, by simp [hb]⟩

/-! ## Members -/

namespace Collector

def ExtendsAt (c : Collector) (entry : ClassEntry) (decl : Decl) (o : Outcome) : Prop :=
  ∃ change, o.collector.db = c.db.updateClass entry.fullName change ∧ ∀ e, Extends decl e (change e)

theorem ExtendsAt.unchanged {c : Collector} {entry : ClassEntry} {decl : Decl} {o : Outcome}
    (h : o.collector.db = c.db) (hc : decl.kind ≠ .constructorDecl) (hm : decl.kind.isMethod = false)
    (hb : decl.kind ≠ .baseSpecifier) (ha : decl.kind ≠ .accessSpec) : c.ExtendsAt entry decl o :=
  ⟨id, by rw [h, Database.updateClass_id], Extends.refl_of hc hm hb ha⟩

theorem addBase_extends (c : Collector) (entry : ClassEntry) {decl : Decl} (hk : decl.kind = .baseSpecifier) :
    c.ExtendsAt entry decl (c.addBase entry decl.spelling) := by
  unfold addBase
  simp only
  split
  · rename_i base hbase
    refine ⟨_, rfl, fun e => ?_⟩
    refine ⟨rfl, rfl, rfl, rfl, rfl, rfl, fun _ h => h, by simp [hk], by simp [hk], by simp [hk, NodeKind.isMethod], ?_⟩
    refine ⟨[base.fullName], rfl, ?_⟩
    have : StandsForBase decl.spelling base.fullName := Database.classLike?_name hbase
    simp [hk, this]
  · refine ⟨_, rfl, fun e => ?_⟩
    refine ⟨rfl, rfl, rfl, rfl, rfl, rfl, fun _ h => h, by simp [hk], by simp [hk], by simp [hk, NodeKind.isMethod], ?_⟩
    refine ⟨[baseName decl.spelling], rfl, ?_⟩
    have : StandsForBase decl.spelling (baseName decl.spelling) := Or.inl rfl
    simp [hk, this]

theorem addField_extends (c : Collector) (entry : ClassEntry) {decl : Decl} (isStatic : Bool)
    (hk : decl.kind = .fieldDecl ∨ decl.kind = .variableDecl) :
    c.ExtendsAt entry decl (c.addField entry decl isStatic) := by
  have hc : decl.kind ≠ .constructorDecl := by rcases hk with h | h <;> simp [h]
  have hm : decl.kind.isMethod = false := by rcases hk with h | h <;> simp [h, NodeKind.isMethod]
  have hb : decl.kind ≠ .baseSpecifier := by rcases hk with h | h <;> simp [h]
  have ha : decl.kind ≠ .accessSpec := by rcases hk with h | h <;> simp [h]
  unfold addField
  split
  · exact .unchanged rfl hc hm hb ha
  · simp only
    split
    · exact .unchanged rfl hc hm hb ha
    · refine ⟨_, rfl, fun e => ?_⟩
      exact ⟨rfl, rfl, rfl, rfl, rfl, rfl, fun _ h => List.mem_append_left _ h, by simp [ha], by simp [hc], by simp [hm],
        [], by simp, by simp [hb]⟩

theorem addMethod_extends (c : Collector) (entry : ClassEntry) {decl : Decl} {d : Directive}
    (hk : decl.kind = .constructorDecl ∨ decl.kind.isMethod = true)
    (hok : (c.addMethod entry decl).answer = .ok d) :
    c.ExtendsAt entry decl (c.addMethod entry decl) := by
  have hb : decl.kind ≠ .baseSpecifier := by
    rintro h
    simp [h, NodeKind.isMethod] at hk
  have ha : decl.kind ≠ .accessSpec := by
    rintro h
    simp [h, NodeKind.isMethod] at hk
  unfold addMethod at hok ⊢
  simp only at hok ⊢
  split at hok
  · simp at hok
  · split
    · rename_i hctor
      refine ⟨_, rfl, fun e => ?_⟩
      exact ⟨rfl, rfl, rfl, rfl, rfl, rfl, fun _ h => h, by simp [ha], by simp [hctor], by simp [hctor, NodeKind.isMethod], [],
        by simp, by simp [hb]⟩
    · rename_i hctor
      have hm : decl.kind.isMethod = true := hk.resolve_left hctor
      refine ⟨_, rfl, fun e => ?_⟩
      exact ⟨rfl, rfl, rfl, rfl, rfl, rfl, fun _ h => h, by simp [ha], by simp [hctor], by simp [hm], [], by simp, by simp [hb]⟩

theorem visitMember_extends (c : Collector) (entry : ClassEntry) (decl : Decl) {d : Directive}
    (hok : (c.visitMember entry decl).answer = .ok d) : c.ExtendsAt entry decl (c.visitMember entry decl) := by
  unfold visitMember at hok ⊢
  simp only at hok ⊢
  split at hok
  · rename_i hk
    refine ⟨_, rfl, fun e => ?_⟩
    exact ⟨rfl, rfl, rfl, rfl, rfl, rfl, fun _ h => h, by simp [hk], by simp [hk], by simp [hk, NodeKind.isMethod], [], by simp,
      by simp [hk]⟩
  · rename_i hk
    exact c.addBase_extends entry hk
  · rename_i hk
    refine ⟨_, rfl, fun e => ?_⟩
    exact ⟨rfl, rfl, rfl, rfl, rfl, rfl, fun _ h => h, by simp [hk], by simp [hk], by simp [hk, NodeKind.isMethod], [], by simp,
      by simp [hk]⟩
  · rename_i hk
    exact c.addMethod_extends entry (Or.inr (by simp [hk, NodeKind.isMethod])) hok
  · rename_i hk
    exact c.addMethod_extends entry (Or.inr (by simp [hk, NodeKind.isMethod])) hok
  · rename_i hk
    exact c.addMethod_extends entry (Or.inl hk) hok
  · rename_i hk
    exact c.addField_extends entry false (Or.inl hk)
  · rename_i hk
    exact c.addField_extends entry true (Or.inr hk)
  · rename_i hk
    exact .unchanged rfl (by simp [hk]) (by simp [hk, NodeKind.isMethod]) (by simp [hk]) (by simp [hk])
  · rename_i h1 h2 h3 h4 h5 h6 h7 h8 h9
    exact .unchanged rfl h6 (by cases hk : decl.kind <;> simp_all [NodeKind.isMethod]) h2 h3

/-! ## Declarations -/

theorem visitClass_effect {c : Collector} {decl : Decl} {parent : Site} {d : Directive} {o : Outcome}
    (hk : decl.kind.isClass = true) (ho : c.visitClass decl parent = o) (hok : o.answer = .ok d) :
    c.Effect decl parent o.collector.db d := by
  have hs : decl.kind.standsAlone = true := by
    cases h : decl.kind <;> simp_all [NodeKind.isClass, NodeKind.standsAlone]
  unfold visitClass at ho
  simp only at ho
  split at ho
  · subst ho
    cases hok
    exact .quiet (.refl _ _) (Or.inl hs) .pass (by simp)
  · rename_i hn
    split at ho
    · subst ho
      cases hok
      exact .quiet (.refl _ _) (Or.inl hs) .pass (by simp)
    · subst ho
      cases hok
      exact .quiet (.refl _ _) (Or.inl hs) .pass (by simp)
    · rename_i scope hscope
      subst ho
      cases hok
      exact .declared scope hk (by simpa using hn) hscope rfl _ rfl

theorem aliasEntry_kind (c : Collector) (name : String) (scope : List String) (target : TypeRef) :
    (c.aliasEntry name scope target).1.kind = .aliasType := by
  unfold aliasEntry
  simp only
  split
  · rfl
  · split <;> rfl

theorem visitAlias_beside (c : Collector) (decl : Decl) (parent : Site) :
    c.db.Beside decl (c.visitAlias decl parent).collector.db := by
  unfold visitAlias
  simp only
  split
  · exact .refl _ _
  · unfold Database.addType answer
    simp only
    split
    · exact .refl _ _
    · exact ⟨rfl, rfl, ⟨_, rfl, by simp [aliasEntry_kind]⟩, fun e he => Or.inr ⟨e, he, rfl, rfl⟩, ⟨[], by simp⟩, ⟨[], by simp⟩⟩

theorem visitEnum_beside (c : Collector) (decl : Decl) (parent : Site) :
    c.db.Beside decl (c.visitEnum decl parent).collector.db := by
  unfold visitEnum
  simp only
  split
  · exact .refl _ _
  · unfold Database.addEnum answer
    simp only
    split
    · exact .refl _ _
    · refine ⟨rfl, rfl, ⟨_, rfl, by simp [Database.declaredType]⟩, ?_, ⟨_, List.map_append⟩, ⟨[], by simp⟩⟩
      intro e he
      rcases List.mem_append.mp he with he | he
      · exact Or.inr ⟨e, he, rfl, rfl⟩
      · rw [List.mem_singleton.mp he]
        exact Or.inl ⟨List.mem_append_right _ (List.mem_singleton.mpr rfl), rfl⟩

theorem mem_addConstantTo {place : Place} {name : String} {value : Int} {e : EnumEntry} :
    ∀ {enums : List EnumEntry}, e ∈ Database.addConstantTo place name value enums →
      ∃ old ∈ enums, old.tableEntry = e.tableEntry ∧ old.place = e.place
  | [], he => by simp [Database.addConstantTo] at he
  | entry :: rest, he => by
    unfold Database.addConstantTo at he
    split at he
    · rcases List.mem_cons.mp he with rfl | he
      · exact ⟨entry, List.mem_cons_self .., rfl, rfl⟩
      · exact ⟨e, List.mem_cons_of_mem _ he, rfl, rfl⟩
    · rcases List.mem_cons.mp he with rfl | he
      · exact ⟨e, List.mem_cons_self .., rfl, rfl⟩
      · obtain ⟨old, hold, heq⟩ := mem_addConstantTo he
        exact ⟨old, List.mem_cons_of_mem _ hold, heq⟩

theorem addConstantTo_names (place : Place) (name : String) (value : Int) :
    ∀ enums : List EnumEntry, (Database.addConstantTo place name value enums).map EnumEntry.fullName =
      enums.map EnumEntry.fullName
  | [] => rfl
  | entry :: rest => by
    unfold Database.addConstantTo
    split
    · rfl
    · rw [List.map_cons, List.map_cons, addConstantTo_names place name value rest]

theorem visitConstant_beside (c : Collector) (decl : Decl) (parent : Site) :
    c.db.Beside decl (c.visitConstant decl parent).collector.db where
  namespaces := rfl
  classes := rfl
  types := ⟨[], by simp [visitConstant, answer, Database.addConstant], by simp⟩
  enums := fun e he => Or.inr (mem_addConstantTo he)
  enumNames := ⟨[], by rw [List.append_nil]; exact addConstantTo_names ..⟩
  functions := ⟨[], by simp [visitConstant, answer, Database.addConstant]⟩

theorem addFunction_beside (db : Database) (decl : Decl) (f : FreeFunction) : db.Beside decl (db.addFunction f) := by
  unfold Database.addFunction
  split
  · exact .refl _ _
  · exact { Database.Beside.refl db decl with functions := ⟨_, rfl⟩ }

theorem visitFunction_beside (c : Collector) (decl : Decl) (parent : Site) :
    c.db.Beside decl (c.visitFunction decl parent).collector.db := by
  unfold visitFunction
  simp only
  split
  · exact .refl _ _
  · split
    · exact .refl _ _
    · split
      · exact addFunction_beside ..
      · exact addFunction_beside ..

theorem visitDecl_effect {c : Collector} {decl : Decl} {parent : Site} {d : Directive} {o : Outcome}
    (ho : c.visitDecl decl parent = o) (hok : o.answer = .ok d) : c.Effect decl parent o.collector.db d := by
  unfold visitDecl at ho
  split at ho
  · rename_i hk
    unfold visitNamespace at ho
    simp only at ho
    split at ho
    · subst ho
      cases hok
      exact .quiet (.refl _ _) (Or.inl (by simp [hk, NodeKind.standsAlone])) .pass (by simp)
    · rename_i hn
      subst ho
      cases hok
      exact .opened hk (by simpa using hn) rfl
  · rename_i hk
    subst ho
    exact .quiet (c.visitAlias_beside ..) (Or.inl (by simp [hk, NodeKind.standsAlone])) d (by simp [hk, NodeKind.isClass])
  · rename_i hk
    subst ho
    exact .quiet (c.visitAlias_beside ..) (Or.inl (by simp [hk, NodeKind.standsAlone])) d (by simp [hk, NodeKind.isClass])
  · rename_i hk
    subst ho
    exact .quiet (c.visitEnum_beside ..) (Or.inl (by simp [hk, NodeKind.standsAlone])) d (by simp [hk, NodeKind.isClass])
  · rename_i hk
    subst ho
    have hs : decl.kind.standsAlone = true := by simp [hk, NodeKind.standsAlone]
    have hl : decl.kind ≠ .namespaceDecl ∧ decl.kind.isClass = false := by simp [hk, NodeKind.isClass]
    exact .quiet (c.visitConstant_beside ..) (Or.inl hs) d fun _ => hl
  · rename_i hk
    exact visitClass_effect (by simp [hk, NodeKind.isClass]) ho hok
  · rename_i hk
    exact visitClass_effect (by simp [hk, NodeKind.isClass]) ho hok
  · rename_i hk
    exact visitClass_effect (by simp [hk, NodeKind.isClass]) ho hok
  · rename_i hk
    subst ho
    have hs : decl.kind.standsAlone = true := by simp [hk, NodeKind.standsAlone]
    have hl : decl.kind ≠ .namespaceDecl ∧ decl.kind.isClass = false := by simp [hk, NodeKind.isClass]
    exact .quiet (.refl _ _) (Or.inl hs) d fun _ => hl
  · rename_i h1 h2 h3 h4 h5 h6 h7 h8 h9
    -- whatever kind is left is a member of the class around it, or a function
    have hs : decl.kind.standsAlone = false := by
      cases hk : decl.kind <;> simp_all [NodeKind.standsAlone, NodeKind.isClass]
    have hl : decl.kind ≠ .namespaceDecl ∧ decl.kind.isClass = false := by
      cases hk : decl.kind <;> simp_all [NodeKind.isClass]
    split at ho
    · rename_i entry hentry
      subst ho
      obtain ⟨change, hdb, hext⟩ := c.visitMember_extends entry decl hok
      exact .member entry change hs hentry hdb hext d
    · rename_i hnone
      split at ho
      · subst ho
        exact .quiet (c.visitFunction_beside ..) (Or.inr hnone) d fun _ => hl
      · subst ho
        exact .quiet (.refl _ _) (Or.inr hnone) d fun _ => hl

/-- What all outcomes have in common: the paths stay, the walk is not stopped, and a failing event leaves
everything as it was. -/
structure Regular (c : Collector) (o : Outcome) : Prop where
  base : o.collector.base = c.base
  roots : o.collector.roots = c.roots
  unstopped : o.answer ≠ .ok .stop
  failed : ∀ e, o.answer = .error e → o.collector = c

theorem Regular.answered {c c' : Collector} (hb : c'.base = c.base) (hr : c'.roots = c.roots) (db : Database)
    {d : Directive} (hd : d ≠ .stop) (notes : List Note) : c.Regular (c'.answer db d notes) := by
  refine ⟨hb, hr, ?_, ?_⟩
  · intro h
    cases h
    exact hd rfl
  · intro e h
    cases h

theorem Regular.broken (c : Collector) (e : BrokenType) : c.Regular { collector := c, answer := .error e } := by
  refine ⟨rfl, rfl, ?_, fun _ _ => rfl⟩
  intro h
  cases h

theorem visitNamespace_regular (c : Collector) (decl : Decl) (parent : Site) :
    c.Regular (c.visitNamespace decl parent) := by
  unfold visitNamespace
  simp only
  split <;> exact .answered rfl rfl _ (by decide) _

theorem visitAlias_regular (c : Collector) (decl : Decl) (parent : Site) : c.Regular (c.visitAlias decl parent) := by
  unfold visitAlias
  simp only
  split <;> exact .answered rfl rfl _ (by decide) _

theorem visitEnum_regular (c : Collector) (decl : Decl) (parent : Site) : c.Regular (c.visitEnum decl parent) := by
  unfold visitEnum
  simp only
  split <;> exact .answered rfl rfl _ (by decide) _

theorem visitClass_regular (c : Collector) (decl : Decl) (parent : Site) : c.Regular (c.visitClass decl parent) := by
  unfold visitClass
  simp only
  split
  · exact .answered rfl rfl _ (by decide) _
  · split
    · exact .answered rfl rfl _ (by decide) _
    · exact .answered rfl rfl _ (by decide) _
    · refine .answered rfl rfl _ ?_ _
      split <;> decide

theorem visitMember_regular (c : Collector) (entry : ClassEntry) (decl : Decl) :
    c.Regular (c.visitMember entry decl) := by
  have hmethod : c.Regular (c.addMethod entry decl) := by
    unfold addMethod
    simp only
    split
    · exact .broken ..
    · split
      all_goals
        apply Regular.answered
        · rfl
        · rfl
        · decide
  have hfield : ∀ isStatic, c.Regular (c.addField entry decl isStatic) := by
    intro isStatic
    unfold addField
    split
    · exact .broken ..
    · simp only
      split <;> exact .answered rfl rfl _ (by decide) _
  unfold visitMember
  simp only
  split
  · apply Regular.answered
    · rfl
    · rfl
    · decide
  · unfold addBase
    simp only
    split <;> exact .answered rfl rfl _ (by decide) _
  · exact .answered rfl rfl _ (by decide) _
  · exact hmethod
  · exact hmethod
  · exact hmethod
  · exact hfield false
  · exact hfield true
  · exact .answered rfl rfl _ (by decide) _
  · exact .answered rfl rfl _ (by decide) _

theorem visitFunction_regular (c : Collector) (decl : Decl) (parent : Site) :
    c.Regular (c.visitFunction decl parent) := by
  unfold visitFunction
  simp only
  split
  · exact .broken ..
  · split
    · exact .answered rfl rfl _ (by decide) _
    · split
      all_goals
        apply Regular.answered
        · rfl
        · rfl
        · decide

theorem visitDecl_regular (c : Collector) (decl : Decl) (parent : Site) : c.Regular (c.visitDecl decl parent) := by
  unfold visitDecl
  split
  · exact c.visitNamespace_regular decl parent
  · exact c.visitAlias_regular decl parent
  · exact c.visitAlias_regular decl parent
  · exact c.visitEnum_regular decl parent
  · exact .answered rfl rfl _ (by decide) _
  · exact c.visitClass_regular decl parent
  · exact c.visitClass_regular decl parent
  · exact c.visitClass_regular decl parent
  · exact .answered rfl rfl _ (by decide) _
  · split
    · exact c.visitMember_regular _ decl
    · split
      · exact c.visitFunction_regular decl parent
      · exact .answered rfl rfl _ (by decide) _

theorem visit_invariant {P : Database → Prop} {c : Collector} {decl : Decl} {parent : Site}
    (outline : ∀ db db' : Database, db'.outline = db.outline → P db → P db')
    (effect : ∀ (c' : Collector) (db : Database) (d : Directive), c.Alike c' → c'.Effect decl parent db d →
      P c'.db → P db)
    (h : P c.db) : P (c.visit decl parent).collector.db := by
  rcases c.visit_cases decl parent with ⟨-, hv⟩ | ⟨-, c', d, ha, -, hv⟩ | ⟨-, c', ha, -, -, hv⟩
  · rw [hv]
    exact h
  · rw [hv]
    exact outline _ _ ha.outline h
  · have h' := outline _ _ ha.outline h
    rw [hv]
    -- a failing event leaves the state it found, any other one has an effect
    cases hans : (c'.visitDecl decl parent).answer with
    | error e =>
      rw [(c'.visitDecl_regular decl parent).failed e hans]
      exact h'
    | ok d => exact effect c' _ d ha (visitDecl_effect rfl hans) h'

theorem visit_not_stop (c : Collector) (decl : Decl) (parent : Site) :
    (c.visit decl parent).answer ≠ .ok .stop := by
  rcases c.visit_cases decl parent with ⟨-, h⟩ | ⟨-, c', d, -, ht, h⟩ | ⟨-, c', -, -, -, h⟩
  · rw [h]
    simp [answer]
  · rw [h]
    have hd : d ≠ .stop := by
      rintro rfl
      cases hk : decl.kind <;> simp [takes, hk] at ht
    simp [answer, hd]
  · rw [h]
    exact (c'.visitDecl_regular decl parent).unstopped

theorem visit_paths (c : Collector) (decl : Decl) (parent : Site) :
    (c.visit decl parent).collector.base = c.base ∧ (c.visit decl parent).collector.roots = c.roots := by
  rcases c.visit_cases decl parent with ⟨-, h⟩ | ⟨-, c', d, ha, -, h⟩ | ⟨-, c', ha, -, -, h⟩
  · rw [h]
    exact ⟨rfl, rfl⟩
  · rw [h]
    exact ⟨ha.base, ha.roots⟩
  · rw [h]
    have hreg := c'.visitDecl_regular decl parent
    exact ⟨hreg.base.trans ha.base, hreg.roots.trans ha.roots⟩

end Collector

end SymbolIndex
