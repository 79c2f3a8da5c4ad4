import SymbolIndex.Proofs.BrokenTypes
import SymbolIndex.Proofs.History
import SymbolIndex.Proofs.Writes

/-!
# The members of a class

The roster of a class lists its constructors, methods and fields. Template parameters reach a method
late and are left out. An event changes the roster of one class at most: a child of one of the class's
declarations goes to the end of one of the three lists.
-/

namespace SymbolIndex

structure Roster where
  constructors : List Method := []
  methods : List Method := []
  fields : List Field := []

def Class.roster (c : Class) : Roster where
  constructors := c.constructors.map Method.outline
  methods := c.methods.map Method.outline
  fields := c.fields

theorem Class.outline_roster (c : Class) : c.outline.roster = c.roster := by
  simp [roster, outline, Function.comp_def, Method.outline]

namespace Database

variable {db db' : Database}

def roster (db : Database) (fullName : String) : Roster :=
  ((db.findClass? fullName).map (·.record.roster)).getD {}

theorem roster_of_outline (ho : db'.outline = db.outline) (fullName : String) :
    db'.roster fullName = db.roster fullName := by
  have hview : ∀ d : Database,
      d.roster fullName = ((d.outline.findClass? fullName).map (·.record.roster)).getD {} := by
    intro d
    simp only [roster, outline_findClass?, Option.map_map, Function.comp_def, ClassEntry.outline, Class.outline_roster]
  rw [hview, ho, ← hview]

theorem roster_of_classes (h : db'.classes = db.classes) (fullName : String) :
    db'.roster fullName = db.roster fullName := by
  rw [roster, findClass?, h]
  rfl

theorem roster_addClass (db : Database) {c : Class} (hc : c.roster = {}) (place : Place) (access : Access)
    (fullName : String) : (db.addClass c place access).db.roster fullName = db.roster fullName := by
  have hredeclare : ∀ e : ClassEntry, (redeclare e c place access).record.roster = e.record.roster := by
    intro e
    unfold redeclare
    split <;> rfl
  unfold roster
  rw [findClass?_addClass]
  split
  · cases db.findClass? fullName with
    | none => simpa using hc
    | some e => simp [hredeclare]
  · rfl

theorem roster_updateClass_of_ne (db : Database) {fullName other : String} {change : ClassEntry → ClassEntry}
    (h : ∀ e, (change e).fullName = e.fullName) (hne : fullName ≠ other) :
    (db.updateClass other change).roster fullName = db.roster fullName := by
  rw [roster, findClass?_updateClass db h, if_neg hne, roster]

theorem roster_updateClass {owner : ClassEntry} (hm : owner ∈ db.classes) {change : ClassEntry → ClassEntry}
    (h : ∀ e, (change e).fullName = e.fullName) :
    ∃ e, db.roster owner.fullName = e.record.roster ∧
      (db.updateClass owner.fullName change).roster owner.fullName = (change e).record.roster := by
  have hknown : (db.findClass? owner.fullName).isSome = true := by
    rw [findClass?, List.find?_isSome]
    exact ⟨owner, hm, by simp⟩
  obtain ⟨e, he⟩ := Option.isSome_iff_exists.mp hknown
  refine ⟨e, ?_, ?_⟩
  · rw [roster, he]
    rfl
  · rw [roster, findClass?_updateClass db h, if_pos rfl, he]
    rfl

end Database

/-! ## What events add -/

/-- A child of a declaration of a class goes to the end of one list of its roster. -/
inductive ClassEntry.Enrolls (owner : ClassEntry) (decl : Decl) (types : List TypeRef) (r : Roster) :
    Roster → Prop where
  | constructor (signature : Signature) (kind : decl.kind = .constructorDecl)
      (read : readSignature decl types (Scope.split owner.fullName) = .ok signature) :
      Enrolls owner decl types r
        { r with constructors := r.constructors ++ [(owner.methodRecord decl signature).outline] }
  | method (signature : Signature) (kind : decl.kind.isMethod = true)
      (read : readSignature decl types (Scope.split owner.fullName) = .ok signature) :
      Enrolls owner decl types r { r with methods := r.methods ++ [(owner.methodRecord decl signature).outline] }
  | field (param : Parameter) (kind : decl.kind = .fieldDecl ∨ decl.kind = .variableDecl)
      (read : resolveParameter decl.type types decl.spelling (Scope.split owner.fullName) = .ok param)
      (fresh : owner.record.fields.any ((owner.fieldRecord decl param).same ·) = false) :
      Enrolls owner decl types r { r with fields := r.fields ++ [owner.fieldRecord decl param] }

theorem ClassEntry.Enrolls.untaken {owner : ClassEntry} {decl : Decl} {types : List TypeRef} {r r' : Roster}
    (h : owner.Enrolls decl types r r') : Collector.takes decl.kind = none := by
  cases h with
  | constructor signature kind read =>
    rw [kind]
    rfl
  | method signature kind read => cases hk : decl.kind <;> simp_all [Collector.takes, NodeKind.isMethod]
  | field param kind read fresh => rcases kind with hk | hk <;> rw [hk] <;> rfl

namespace Collector

variable {c : Collector} {owner : ClassEntry} {decl : Decl}

theorem Adds.fullName {change : ClassEntry → ClassEntry} (h : c.Adds owner decl change) (e : ClassEntry) :
    (change e).fullName = e.fullName := by
  cases h <;> rfl

theorem Adds.enrolls {change : ClassEntry → ClassEntry} (h : c.Adds owner decl change) (e : ClassEntry) :
    (change e).record.roster = e.record.roster ∨
      owner.Enrolls decl c.db.types e.record.roster (change e).record.roster := by
  cases h with
  | parameter kind => exact Or.inl rfl
  | base kind found => exact Or.inl rfl
  | unknownBase kind missed => exact Or.inl rfl
  | access kind => exact Or.inl rfl
  | constructor signature kind read =>
    right
    simp only [Class.roster, List.map_append]
    exact .constructor signature kind read
  | method signature kind read =>
    right
    simp only [Class.roster, List.map_append]
    exact .method signature kind read
  | field param kind read fresh => exact Or.inr (.field param kind read fresh)

theorem Writes.roster {parent : Site} {db : Database} (h : c.Writes decl parent db) (fullName : String) :
    db.roster fullName = c.db.roster fullName ∨
      ∃ owner, c.db.classAt? parent.place = some owner ∧ owner.fullName = fullName ∧
        owner.Enrolls decl c.db.types (c.db.roster fullName) (db.roster fullName) := by
  cases h with
  | nothing => exact Or.inl rfl
  | ofNamespace kind named =>
    left
    apply Database.roster_of_classes
    rw [Database.addNamespace_eq]
  | ofClass scope kind named context => exact Or.inl (Database.roster_addClass c.db rfl ..)
  | ofEnum kind named =>
    left
    apply Database.roster_of_classes
    unfold Database.addEnum
    split <;> rfl
  | ofConstant kind => exact Or.inl (Database.roster_of_classes rfl _)
  | ofAlias scope kind context =>
    left
    apply Database.roster_of_classes
    unfold Database.addType
    split <;> rfl
  | ofFunction signature kind free read =>
    left
    apply Database.roster_of_classes
    unfold Database.addFunction
    split <;> rfl
  | ofMember owner kind known adds =>
    by_cases hn : fullName = owner.fullName
    · subst hn
      obtain ⟨e, hold, hnew⟩ := Database.roster_updateClass (List.mem_of_find?_eq_some known) adds.fullName
      rw [hold, hnew]
      rcases adds.enrolls e with hsame | henrolls
      · exact Or.inl hsame
      · exact Or.inr ⟨owner, known, rfl, henrolls⟩
    · exact Or.inl (Database.roster_updateClass_of_ne c.db adds.fullName hn)

end Collector

theorem Moment.roster_step (m : Moment) (fullName : String) :
    m.after.db.roster fullName = m.before.db.roster fullName ∨
      ∃ owner, m.before.db.classAt? m.parent.place = some owner ∧ owner.fullName = fullName ∧
        m.before.counts m.decl = true ∧
        owner.Enrolls m.decl m.before.db.types (m.before.db.roster fullName) (m.after.db.roster fullName) := by
  by_cases counted : m.before.counts m.decl = true
  · by_cases untaken : Collector.takes m.decl.kind = none
    · have hwrites := m.before.closeTemplates.visitDecl_writes m.decl m.parent.site
      rw [← Collector.visit_of_untaken counted untaken] at hwrites
      rcases hwrites.roster fullName with hsame | ⟨owner, known, hname, henrolls⟩
      · exact Or.inl hsame
      · exact Or.inr ⟨owner, known, hname, counted, henrolls⟩
    · left
      rcases m.before.visit_writes m.decl m.parent.site with hsame | hwrites
      · exact congrArg (Database.roster · fullName) hsame
      · have ho := (m.before.offered_alike m.decl m.parent.site).outline
        rcases hwrites.roster fullName with hsame | ⟨owner, -, -, henrolls⟩
        · exact hsame.trans (Database.roster_of_outline ho fullName)
        · exact absurd henrolls.untaken untaken
  · have hpassed : m.outcome = m.before.answer m.before.db .pass [] := if_neg counted
    rw [Moment.after, hpassed]
    exact Or.inl rfl

end SymbolIndex
