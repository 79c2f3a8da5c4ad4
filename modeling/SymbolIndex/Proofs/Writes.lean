import SymbolIndex.Proofs.Repetition

/-!
# What one event writes

Open templates see an event first and keep the outline. What is left to do for the declaration is one
of the database's own operations, or nothing; a member changes the entry of its class in one of seven
ways. These are all the ways in which a database changes.
-/

namespace SymbolIndex

namespace ClassEntry

def methodRecord (owner : ClassEntry) (decl : Decl) (signature : Signature) : Method :=
  { signature with
    name := decl.spelling
    isStatic := decl.isStatic
    isVirtual := decl.isVirtual
    isPureVirtual := decl.isPure
    isConst := decl.isConst
    visibility := owner.access.visibility }

def fieldRecord (owner : ClassEntry) (decl : Decl) (param : Parameter) : Field :=
  { param with isStatic := decl.kind == .variableDecl, visibility := owner.access.visibility }

end ClassEntry

theorem Database.addNamespace_eq (db : Database) (name fullName : String) (place : Place) :
    db.addNamespace name fullName place =
      { db with namespaces := (db.addNamespace name fullName place).namespaces } := by
  unfold addNamespace
  split <;> rfl

theorem Database.addNamespace_records (db : Database) (name fullName : String) (place : Place) :
    (db.addNamespace name fullName place).namespaces.map NamespaceEntry.ns =
      if db.namespaces.any (·.fullName == fullName) then db.namespaces.map NamespaceEntry.ns
      else db.namespaces.map NamespaceEntry.ns ++ [⟨name, fullName⟩] := by
  unfold addNamespace
  split
  · rw [List.map_map]
    apply List.map_congr_left
    intro entry _
    simp only [Function.comp_apply]
    split <;> rfl
  · simp

namespace Collector

def offered (c : Collector) (decl : Decl) (parent : Site) : Collector :=
  ((c.settleClass decl).offerFunction decl parent).1

theorem offered_alike (c : Collector) (decl : Decl) (parent : Site) : c.Alike (c.offered decl parent) :=
  (c.settleClass_alike decl).trans ((c.settleClass decl).offerFunction_alike decl parent)

inductive Adds (c : Collector) (owner : ClassEntry) (decl : Decl) : (ClassEntry → ClassEntry) → Prop where
  | parameter (kind : decl.kind = .templateTypeParameter) : Adds c owner decl fun entry =>
      { entry with record.templateParams := entry.record.templateParams ++ [{ name := decl.spelling }] }
  | base {known : ClassEntry} (kind : decl.kind = .baseSpecifier)
      (found : c.db.classLike? (baseName decl.spelling) (Scope.parent owner.fullName) = some known) :
      Adds c owner decl fun entry =>
        { entry with
          record.bases := entry.record.bases ++ [known.fullName]
          record.knownBases := entry.record.knownBases ++ [known.fullName] }
  | unknownBase (kind : decl.kind = .baseSpecifier)
      (missed : c.db.classLike? (baseName decl.spelling) (Scope.parent owner.fullName) = none) :
      Adds c owner decl fun entry => { entry with record.bases := entry.record.bases ++ [baseName decl.spelling] }
  | access (kind : decl.kind = .accessSpec) : Adds c owner decl fun entry => { entry with access := decl.access }
  | constructor (signature : Signature) (kind : decl.kind = .constructorDecl)
      (read : readSignature decl c.db.types (Scope.split owner.fullName) = .ok signature) :
      Adds c owner decl fun entry =>
        { entry with record.constructors := entry.record.constructors ++ [owner.methodRecord decl signature] }
  | method (signature : Signature) (kind : decl.kind.isMethod = true)
      (read : readSignature decl c.db.types (Scope.split owner.fullName) = .ok signature) :
      Adds c owner decl fun entry =>
        { entry with record.methods := entry.record.methods ++ [owner.methodRecord decl signature] }
  | field (param : Parameter) (kind : decl.kind = .fieldDecl ∨ decl.kind = .variableDecl)
      (read : resolveParameter decl.type c.db.types decl.spelling (Scope.split owner.fullName) = .ok param)
      (fresh : owner.record.fields.any ((owner.fieldRecord decl param).same ·) = false) :
      Adds c owner decl fun entry =>
        { entry with record.fields := entry.record.fields ++ [owner.fieldRecord decl param] }

def enumRecord (c : Collector) (decl : Decl) (parent : Site) : Enum :=
  { name := decl.spelling, fullName := c.namespaceName decl parent, fromFile := c.fileOf decl }

inductive Writes (c : Collector) (decl : Decl) (parent : Site) : Database → Prop where
  | nothing : Writes c decl parent c.db
  | ofNamespace (kind : decl.kind = .namespaceDecl) (named : isUnnamed decl.spelling = false) :
      Writes c decl parent (c.db.addNamespace decl.spelling (c.namespaceName decl parent) decl.place)
  | ofClass (scope : String) (kind : decl.kind.isClass = true) (named : isUnnamed decl.spelling = false)
      (context : c.classContext parent = .within scope) :
      Writes c decl parent (c.db.addClass (c.classRecord decl scope) decl.place decl.classKey.access).db
  | ofEnum (kind : decl.kind = .enumDecl) (named : isUnnamed decl.spelling = false) :
      Writes c decl parent (c.db.addEnum (c.enumRecord decl parent) decl.place)
  | ofConstant (kind : decl.kind = .enumConstant) :
      Writes c decl parent (c.db.addConstant parent.place decl.spelling decl.value)
  | ofAlias (scope : String) (kind : decl.kind = .typedefDecl ∨ decl.kind = .typeAliasDecl)
      (context : c.db.scopeName? parent.chain = some scope) :
      Writes c decl parent
        (c.db.addType (c.aliasEntry decl.spelling (Scope.split scope) (.ofTree decl.underlying)).1)
  | ofFunction (signature : Signature) (kind : decl.kind = .functionDecl ∨ decl.kind = .functionTemplate)
      (free : c.db.classAt? parent.place = none)
      (read : readSignature decl c.db.types (c.scopeOf parent) = .ok signature) :
      Writes c decl parent (c.db.addFunction (c.functionRecord decl parent signature))
  | ofMember (owner : ClassEntry) {change : ClassEntry → ClassEntry} (kind : decl.kind.standsAlone = false)
      (known : c.db.classAt? parent.place = some owner) (adds : c.Adds owner decl change) :
      Writes c decl parent (c.db.updateClass owner.fullName change)

variable (c : Collector) (decl : Decl) (parent : Site)

theorem visitFunction_writes (kind : decl.kind = .functionDecl ∨ decl.kind = .functionTemplate)
    (free : c.db.classAt? parent.place = none) :
    c.Writes decl parent (c.visitFunction decl parent).collector.db := by
  unfold visitFunction
  simp only
  split
  · exact .nothing
  · rename_i signature hread
    have hwrites := Writes.ofFunction signature kind free hread
    split
    · rename_i hknown
      have hsame : c.db.addFunction (c.functionRecord decl parent signature) = c.db := if_pos hknown
      rw [hsame] at hwrites
      exact hwrites
    · split <;> exact hwrites

section
variable {c decl parent} {owner : ClassEntry}

theorem addMethod_writes (alone : decl.kind.standsAlone = false) (known : c.db.classAt? parent.place = some owner)
    (kind : decl.kind = .constructorDecl ∨ decl.kind.isMethod = true) :
    c.Writes decl parent (c.addMethod owner decl).collector.db := by
  unfold addMethod
  simp only
  split
  · exact .nothing
  · rename_i signature hread
    by_cases hctor : decl.kind = .constructorDecl
    · rw [if_pos hctor]
      exact .ofMember owner alone known (.constructor signature hctor hread)
    · rw [if_neg hctor]
      exact .ofMember owner alone known (.method signature (kind.resolve_left hctor) hread)

theorem addField_writes (alone : decl.kind.standsAlone = false) (known : c.db.classAt? parent.place = some owner)
    (kind : decl.kind = .fieldDecl ∨ decl.kind = .variableDecl) :
    c.Writes decl parent (c.addField owner decl (decl.kind == .variableDecl)).collector.db := by
  unfold addField
  split
  · exact .nothing
  · rename_i param hread
    simp only
    split
    · exact .nothing
    · rename_i hfresh
      exact .ofMember owner alone known (.field param kind hread (Bool.eq_false_iff.mpr hfresh))

theorem addBase_writes (alone : decl.kind.standsAlone = false) (known : c.db.classAt? parent.place = some owner)
    (kind : decl.kind = .baseSpecifier) : c.Writes decl parent (c.addBase owner decl.spelling).collector.db := by
  unfold addBase
  simp only
  split
  · rename_i base hbase
    exact .ofMember owner alone known (.base kind hbase)
  · rename_i hnone
    exact .ofMember owner alone known (.unknownBase kind hnone)

theorem visitMember_writes (alone : decl.kind.standsAlone = false) (known : c.db.classAt? parent.place = some owner) :
    c.Writes decl parent (c.visitMember owner decl).collector.db := by
  unfold visitMember
  simp only
  split
  · rename_i hk
    exact .ofMember owner alone known (.parameter hk)
  · rename_i hk
    exact addBase_writes alone known hk
  · rename_i hk
    exact .ofMember owner alone known (.access hk)
  · rename_i hk
    exact addMethod_writes alone known (Or.inr (by rw [hk]; rfl))
  · rename_i hk
    exact addMethod_writes alone known (Or.inr (by rw [hk]; rfl))
  · rename_i hk
    exact addMethod_writes alone known (Or.inl hk)
  · rename_i hk
    have hfield := addField_writes alone known (Or.inl hk)
    rw [hk] at hfield
    exact hfield
  · rename_i hk
    have hfield := addField_writes alone known (Or.inr hk)
    rw [hk] at hfield
    exact hfield
  · exact .nothing
  · exact .nothing

end

theorem visitNamespace_writes (kind : decl.kind = .namespaceDecl) :
    c.Writes decl parent (c.visitNamespace decl parent).collector.db := by
  unfold visitNamespace
  simp only
  split
  · exact .nothing
  · rename_i hn
    exact .ofNamespace kind (by simpa using hn)

theorem visitClass_writes (kind : decl.kind.isClass = true) :
    c.Writes decl parent (c.visitClass decl parent).collector.db := by
  unfold visitClass
  simp only
  split
  · exact .nothing
  · rename_i hn
    split
    · exact .nothing
    · exact .nothing
    · rename_i scope hscope
      exact .ofClass scope kind (by simpa using hn) hscope

theorem visitEnum_writes (kind : decl.kind = .enumDecl) :
    c.Writes decl parent (c.visitEnum decl parent).collector.db := by
  unfold visitEnum
  simp only
  split
  · exact .nothing
  · rename_i hn
    exact .ofEnum kind (by simpa using hn)

theorem visitAlias_writes (kind : decl.kind = .typedefDecl ∨ decl.kind = .typeAliasDecl) :
    c.Writes decl parent (c.visitAlias decl parent).collector.db := by
  unfold visitAlias
  simp only
  split
  · exact .nothing
  · rename_i scope hscope
    exact .ofAlias scope kind hscope

theorem visitDecl_writes : c.Writes decl parent (c.visitDecl decl parent).collector.db := by
  by_cases hs : decl.kind.standsAlone = true
  · unfold visitDecl
    split
    · rename_i hk
      exact c.visitNamespace_writes decl parent hk
    · rename_i hk
      exact c.visitAlias_writes decl parent (Or.inl hk)
    · rename_i hk
      exact c.visitAlias_writes decl parent (Or.inr hk)
    · rename_i hk
      exact c.visitEnum_writes decl parent hk
    · rename_i hk
      exact .ofConstant hk
    · rename_i hk
      exact c.visitClass_writes decl parent (by rw [hk]; rfl)
    · rename_i hk
      exact c.visitClass_writes decl parent (by rw [hk]; rfl)
    · rename_i hk
      exact c.visitClass_writes decl parent (by rw [hk]; rfl)
    · exact .nothing
    · -- no kind that stands alone is left
      exfalso
      cases hk : decl.kind <;> simp_all [NodeKind.standsAlone, NodeKind.isClass]
  · have hs : decl.kind.standsAlone = false := by simpa using hs
    rw [c.visitDecl_of_inner hs]
    split
    · rename_i owner known
      exact visitMember_writes hs known
    · rename_i free
      split
      · rename_i hk
        exact c.visitFunction_writes decl parent hk free
      · exact .nothing

/-- An event that counts writes what its declaration writes after open templates have seen it; any other
one leaves the database alone. -/
theorem visit_writes :
    (c.visit decl parent).collector.db = c.db ∨
      (c.offered decl parent).Writes decl parent (c.visit decl parent).collector.db := by
  unfold visit offered
  split
  · right
    generalize (c.settleClass decl).offerFunction decl parent = result
    obtain ⟨c', answer⟩ := result
    cases answer with
    | some d => exact .nothing
    | none => exact c'.visitDecl_writes decl parent
  · exact Or.inl rfl

theorem visit_keeps {P : Database → Prop} {c : Collector} {decl : Decl} {parent : Site}
    (outline : ∀ db db' : Database, db'.outline = db.outline → P db → P db')
    (writes : ∀ (c' : Collector) (db : Database), c'.Writes decl parent db → P c'.db → P db)
    (h : P c.db) : P (c.visit decl parent).collector.db := by
  rcases c.visit_writes decl parent with hsame | hwrites
  · rw [hsame]
    exact h
  · exact writes _ _ hwrites (outline _ _ (c.offered_alike decl parent).outline h)

end Collector

end SymbolIndex
