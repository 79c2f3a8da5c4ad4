import SymbolIndex.Proofs.Coherence
import SymbolIndex.Proofs.Overloads
import SymbolIndex.Proofs.Roster

/-!
# Records are unique

A class keeps one field for each name, and it is the one that was read first. Functions of one full name
differ in the text of a parameter, and no two aliases of the type table have all their names in common.
-/

namespace SymbolIndex

/-! ## Fields -/

def enlist (fields : List Field) (field : Field) : List Field :=
  if fields.any (field.same ·) then fields else fields ++ [field]

theorem any_same_iff {fields : List Field} {field : Field} :
    fields.any (field.same ·) = true ↔ field.name ∈ fields.map (·.name) := by
  simp only [List.any_eq_true, Field.same, beq_iff_eq, List.mem_map]
  constructor
  · rintro ⟨known, hm, hname⟩
    exact ⟨known, hm, hname.symm⟩
  · rintro ⟨known, hm, hname⟩
    exact ⟨known, hm, hname.symm⟩

theorem nodup_enlist {fields : List Field} (h : (fields.map (·.name)).Nodup) (field : Field) :
    ((enlist fields field).map (·.name)).Nodup := by
  unfold enlist
  split
  · exact h
  · rename_i hfresh
    rw [List.map_append]
    exact List.concat_eq_append ▸ h.concat (mt any_same_iff.mpr hfresh)

theorem find?_enlist (fields : List Field) (field : Field) (name : String) :
    (enlist fields field).find? (·.name == name) =
      (fields.find? (·.name == name)).or ([field].find? (·.name == name)) := by
  unfold enlist
  split
  · rename_i hknown
    by_cases hn : field.name = name
    · -- the name is taken, so the look-up ends before the new field
      subst hn
      obtain ⟨known, hm, hsame⟩ := List.mem_map.mp (any_same_iff.mp hknown)
      have hfound : (fields.find? (·.name == field.name)).isSome = true := by
        rw [List.find?_isSome]
        exact ⟨known, hm, by simp [hsame]⟩
      obtain ⟨found, hfound⟩ := Option.isSome_iff_exists.mp hfound
      rw [hfound, Option.some_or]
    · simp [hn]
  · exact List.find?_append

theorem nodup_foldl_enlist : ∀ (read : List Field) {fields : List Field}, (fields.map (·.name)).Nodup →
    ((read.foldl enlist fields).map (·.name)).Nodup
  | [], _, h => h
  | field :: read, _, h => nodup_foldl_enlist read (nodup_enlist h field)

theorem find?_foldl_enlist (name : String) : ∀ read fields : List Field,
    (read.foldl enlist fields).find? (·.name == name) =
      (fields.find? (·.name == name)).or (read.find? (·.name == name))
  | [], fields => by simp
  | field :: read, fields => by
    rw [List.foldl_cons, find?_foldl_enlist name read, find?_enlist, Option.or_assoc]
    congr 1
    by_cases hn : field.name = name <;> simp [hn]

def ClassEntry.withField (entry : ClassEntry) (field : Field) : ClassEntry :=
  { entry with record.fields := entry.record.fields ++ [field] }

theorem ClassEntry.withField_fullName (field : Field) (entry : ClassEntry) :
    (entry.withField field).fullName = entry.fullName := rfl

theorem Database.UniqueClasses.roster {db : Database} (h : db.UniqueClasses) {entry : ClassEntry}
    (hm : entry ∈ db.classes) : db.roster entry.fullName = entry.record.roster := by
  rw [Database.roster, h.findClass? hm]
  rfl

theorem Database.UniqueClasses.fields_withField {db : Database} (h : db.UniqueClasses) {owner : ClassEntry}
    (hm : owner ∈ db.classes) (field : Field) :
    ((db.updateClass owner.fullName (·.withField field)).roster owner.fullName).fields =
      owner.record.fields ++ [field] := by
  obtain ⟨e, hold, hnew⟩ := roster_updateClass hm (ClassEntry.withField_fullName field)
  rw [h.roster hm] at hold
  have hfields : owner.record.fields = e.record.fields := congrArg Roster.fields hold
  rw [hnew, hfields]
  rfl

namespace Moment

def member? (m : Moment) : Option (String × Field) :=
  match m.before.db.classAt? m.parent.place with
  | none => none
  | some owner =>
    if m.before.counts m.decl ∧ (m.decl.kind = .fieldDecl ∨ m.decl.kind = .variableDecl) then
      match resolveParameter m.decl.type m.before.db.types m.decl.spelling (Scope.split owner.fullName) with
      | .ok param => some (owner.fullName, owner.fieldRecord m.decl param)
      | .error _ => none
    else none

theorem member?_eq_some {m : Moment} {fullName : String} {field : Field} :
    m.member? = some (fullName, field) ↔
      ∃ owner param, m.before.db.classAt? m.parent.place = some owner ∧ m.before.counts m.decl = true ∧
        (m.decl.kind = .fieldDecl ∨ m.decl.kind = .variableDecl) ∧
        resolveParameter m.decl.type m.before.db.types m.decl.spelling (Scope.split owner.fullName) = .ok param ∧
        fullName = owner.fullName ∧ field = owner.fieldRecord m.decl param := by
  unfold member?
  constructor
  · intro h
    split at h
    · cases h
    · rename_i owner known
      split at h
      · rename_i hread
        split at h
        · rename_i param hparam
          cases h
          exact ⟨owner, param, known, hread.1, hread.2, hparam, rfl, rfl⟩
        · cases h
      · cases h
  · rintro ⟨owner, param, known, counted, kind, hparam, rfl, rfl⟩
    rw [known]
    simp [counted, kind, hparam]

theorem after_of_member {m : Moment} {owner : ClassEntry} {param : Parameter}
    (known : m.before.db.classAt? m.parent.place = some owner) (counted : m.before.counts m.decl = true)
    (kind : m.decl.kind = .fieldDecl ∨ m.decl.kind = .variableDecl)
    (read : resolveParameter m.decl.type m.before.db.types m.decl.spelling (Scope.split owner.fullName) = .ok param) :
    m.after.db =
      if owner.record.fields.any ((owner.fieldRecord m.decl param).same ·) then m.before.db
      else m.before.db.updateClass owner.fullName (·.withField (owner.fieldRecord m.decl param)) := by
  have huntaken : Collector.takes m.decl.kind = none := by
    rcases kind with hk | hk <;> rw [hk] <;> rfl
  have halone : m.decl.kind.standsAlone = false := by
    rcases kind with hk | hk <;> rw [hk] <;> rfl
  have hfield : m.outcome = m.before.closeTemplates.addField owner m.decl (m.decl.kind == .variableDecl) := by
    rw [outcome, Collector.visit_of_untaken counted huntaken, Collector.visitDecl_of_inner _ halone]
    have hat : m.before.closeTemplates.db.classAt? m.parent.site.place = some owner := known
    rw [hat]
    simp only [Collector.visitMember]
    rcases kind with hk | hk <;> rw [hk] <;> rfl
  have hread : resolveParameter m.decl.type m.before.closeTemplates.db.types m.decl.spelling
      (Scope.split owner.fullName) = .ok param := read
  rw [after, hfield, Collector.addField, hread]
  exact apply_ite (fun o : Outcome => o.collector.db) _ _ _

def fieldsRead (ms : List Moment) (fullName : String) : List Field :=
  ((ms.filterMap member?).filter (·.1 == fullName)).map Prod.snd

theorem fieldsRead_cons (m : Moment) (ms : List Moment) (fullName : String) :
    fieldsRead (m :: ms) fullName = fieldsRead [m] fullName ++ fieldsRead ms fullName := by
  unfold fieldsRead
  rw [← List.map_append, ← List.filter_append, ← List.filterMap_append]
  rfl

theorem fields_step (m : Moment) (unique : m.before.db.UniqueClasses) (fullName : String) :
    (m.after.db.roster fullName).fields =
      (fieldsRead [m] fullName).foldl enlist (m.before.db.roster fullName).fields := by
  cases hm : m.member? with
  | none =>
    have hread : fieldsRead [m] fullName = [] := by simp [fieldsRead, hm]
    rw [hread, List.foldl_nil]
    rcases m.roster_step fullName with hsame | ⟨owner, known, -, counted, henrolls⟩
    · rw [hsame]
    · generalize m.after.db.roster fullName = r at henrolls
      cases henrolls with
      | constructor signature kind read => rfl
      | method signature kind read => rfl
      | field param kind read fresh =>
        have hsome := member?_eq_some.mpr ⟨owner, param, known, counted, kind, read, rfl, rfl⟩
        rw [hm] at hsome
        cases hsome
  | some member =>
    obtain ⟨name, field⟩ := member
    obtain ⟨owner, param, known, counted, kind, read, rfl, rfl⟩ := member?_eq_some.mp hm
    have howner := List.mem_of_find?_eq_some known
    rw [after_of_member known counted kind read]
    by_cases hn : owner.fullName = fullName
    · subst hn
      have hread : fieldsRead [m] owner.fullName = [owner.fieldRecord m.decl param] := by simp [fieldsRead, hm]
      have hfields : (m.before.db.roster owner.fullName).fields = owner.record.fields := by
        rw [unique.roster howner]
        rfl
      rw [hread, List.foldl_cons, List.foldl_nil, hfields, enlist]
      split
      · exact hfields
      · exact unique.fields_withField howner _
    · have hread : fieldsRead [m] fullName = [] := by simp [fieldsRead, hm, hn]
      rw [hread, List.foldl_nil]
      split
      · rfl
      · rw [Database.roster_updateClass_of_ne _ (ClassEntry.withField_fullName _) fun h => hn h.symm]

end Moment

theorem Chained.fields {db db' : Database} {ms : List Moment} (h : Chained db ms db') (unique : db.UniqueClasses)
    (fullName : String) :
    (db'.roster fullName).fields = (Moment.fieldsRead ms fullName).foldl enlist (db.roster fullName).fields := by
  induction h with
  | nil => rfl
  | @cons m ms db further ih =>
    rw [ih (unique.visit m.before m.decl m.parent.site), m.fields_step unique, Moment.fieldsRead_cons m ms,
      List.foldl_append]

/-! ## Functions and aliases -/

namespace Database

def aliases (db : Database) : List TypeRef := db.types.filter (·.kind == .aliasType)

structure Distinct (db : Database) : Prop where
  functions : db.functionKeys.Pairwise fun f g =>
    ¬ (f.1 = g.1 ∧ f.2.map Parameter.typeText = g.2.map Parameter.typeText)
  aliases : db.aliases.Pairwise fun a b =>
    ¬ (a.scopePath = b.scopePath ∧ a.rawName = b.rawName ∧ a.name = b.name ∧ a.fullName = b.fullName)

theorem Distinct.of_outline {db db' : Database} (ho : db'.outline = db.outline) (h : db.Distinct) : db'.Distinct := by
  refine ⟨?_, ?_⟩
  · rw [functionKeys_of_outline ho]
    exact h.functions
  · rw [Database.aliases, types_of_outline ho]
    exact h.aliases

theorem Distinct.addFunction {db : Database} (h : db.Distinct) (f : FreeFunction) : (db.addFunction f).Distinct := by
  constructor
  · rw [functionKeys_addFunction]
    split
    · exact h.functions
    · rename_i hnew
      rw [List.pairwise_append]
      refine ⟨h.functions, List.pairwise_singleton .., ?_⟩
      rintro key hkey f' hf ⟨hname, htexts⟩
      obtain rfl := List.mem_singleton.mp hf
      apply hnew
      rw [knowsFunction_iff]
      refine ⟨key, hkey, hname, ?_⟩
      rw [← List.forall₂_eq_eq_eq, List.forall₂_map_left_iff, List.forall₂_map_right_iff] at htexts
      exact htexts
  · unfold Database.addFunction
    split <;> exact h.aliases

theorem Distinct.addType {db : Database} (h : db.Distinct) (type : TypeRef) : (db.addType type).Distinct := by
  unfold Database.addType
  split
  · exact h
  · rename_i hnew
    refine ⟨h.functions, ?_⟩
    rw [Database.aliases, List.filter_append, List.pairwise_append]
    refine ⟨h.aliases, (List.pairwise_singleton ..).filter _, ?_⟩
    rintro a ha b hb ⟨hpath, hraw, hname, hfull⟩
    obtain rfl := List.mem_singleton.mp (List.mem_filter.mp hb).1
    apply hnew
    rw [knowsType, List.any_eq_true]
    exact ⟨a, (List.mem_filter.mp ha).1, by simp [TypeRef.sameEntry, hpath, hraw, hname, hfull]⟩

theorem Distinct.of_tables {db db' : Database} (h : db.Distinct) (hf : db'.functions = db.functions)
    (ht : db'.aliases = db.aliases) : db'.Distinct := by
  refine ⟨?_, ht ▸ h.aliases⟩
  rw [functionKeys, hf]
  exact h.functions

end Database

theorem Collector.Writes.distinct {c : Collector} {decl : Decl} {parent : Site} {db : Database}
    (h : c.Writes decl parent db) (hd : c.db.Distinct) : db.Distinct := by
  cases h with
  | nothing => exact hd
  | ofNamespace kind named =>
    rw [Database.addNamespace_eq]
    exact hd.of_tables rfl rfl
  | ofClass scope kind named context =>
    unfold Database.addClass
    split
    · exact hd.of_tables rfl rfl
    · refine hd.of_tables rfl ?_
      rcases decl.classKey.typeKind_cases with hk | hk <;>
        simp [Database.aliases, Database.declaredType, classRecord, hk]
  | ofEnum kind named =>
    unfold Database.addEnum
    split
    · exact hd
    · exact hd.of_tables rfl (by simp [Database.aliases, Database.declaredType])
  | ofConstant kind => exact hd.of_tables rfl rfl
  | ofAlias scope kind context => exact hd.addType _
  | ofFunction signature kind free read => exact hd.addFunction _
  | ofMember owner kind known adds => exact hd.of_tables rfl rfl

theorem Collector.states_distinct {c : Collector} {units : List SourceUnit} (h : c.db.Distinct) :
    ∀ state ∈ c.states units, state.db.Distinct := by
  apply Collector.states_invariant _ h
  intro c' decl parent _ hd
  exact Collector.visit_keeps (fun _ _ ho => Database.Distinct.of_outline ho) (fun _ _ hw => hw.distinct) hd

/-! ## States of a run -/

theorem Collector.chained_take {c state : Collector} {units : List SourceUnit} {k : Nat}
    (h : (c.states units)[k]? = some state) : Chained c.db ((c.history units).take k) state.db := by
  cases k with
  | zero =>
    obtain rfl := Option.some.inj h
    exact .nil _
  | succ k =>
    rw [states, List.getElem?_cons_succ, List.getElem?_map] at h
    obtain ⟨m, hm, rfl⟩ := Option.map_eq_some_iff.mp h
    have hchained := chained_history units c
    rw [← List.take_append_drop k (c.history units), List.drop_eq_getElem?_toList_append, hm] at hchained
    rw [List.take_add_one, hm]
    exact hchained.split.1.append (.cons (.nil _))

/-- In every state of a run, a class has one field for each name, which is the first one that an event before
that state has read; no two functions have the same full name and parameters that read the same; and no two
aliases have the same scope, name, written name and full name. -/
theorem records_are_unique {base : String} {roots : List String} {units : List SourceUnit} {k : Nat}
    {state : Collector} (reached : ((Collector.start base roots {}).states units)[k]? = some state) :
    (∀ entry ∈ state.db.classes,
      (entry.record.fields.map (·.name)).Nodup ∧
        ∀ name, entry.record.fields.find? (·.name == name) =
          (Moment.fieldsRead (((Collector.start base roots {}).history units).take k) entry.fullName).find?
            (·.name == name)) ∧
      (state.db.functions.Pairwise fun f g =>
        ¬ (f.fullName = g.fullName ∧ f.params.map Parameter.typeText = g.params.map Parameter.typeText)) ∧
      (state.db.types.filter (·.kind == .aliasType)).Pairwise fun a b =>
        ¬ (a.scopePath = b.scopePath ∧ a.rawName = b.rawName ∧ a.name = b.name ∧ a.fullName = b.fullName) := by
  have hmem : state ∈ (Collector.start base roots {}).states units := List.mem_of_getElem? reached
  have hempty : (Collector.start base roots {}).db.UniqueClasses := List.nodup_nil
  have hunique : state.db.UniqueClasses :=
    Collector.states_invariant (P := Database.UniqueClasses)
      (fun c' decl parent _ hu => hu.visit c' decl parent) hempty state hmem
  have hdistinct : state.db.Distinct :=
    Collector.states_distinct ⟨.nil, .nil⟩ state hmem
  refine ⟨?_, List.pairwise_map.mp hdistinct.functions, hdistinct.aliases⟩
  intro entry he
  -- the fields are those read, each enlisted in turn on an empty list
  have hfields : entry.record.fields =
      (Moment.fieldsRead (((Collector.start base roots {}).history units).take k) entry.fullName).foldl enlist [] := by
    have hread := (Collector.chained_take reached).fields hempty entry.fullName
    rw [hunique.roster he] at hread
    exact hread
  rw [hfields]
  refine ⟨nodup_foldl_enlist _ List.nodup_nil, ?_⟩
  intro name
  rw [find?_foldl_enlist]
  rfl

namespace Duplicates

def opened : Decl := (Decl.wholeFile 0).within 1 .structDecl "S"

def reopened : Decl := (Decl.wholeFile 0).within 3 .classDecl "S"

def member (serial : Nat) (owner : Decl) (type : Builtin) : Decl :=
  { owner.within serial .fieldDecl "x" with type := .builtin {} type }

def function (serial : Nat) (argument : Builtin) : Decl :=
  { (Decl.wholeFile 0).within serial .functionDecl "f" with prototype := some { arguments := [.builtin {} argument] } }

def synonym (serial : Nat) (type : Builtin) : Decl :=
  { (Decl.wholeFile 0).within serial .typedefDecl "T" with underlying := .builtin {} type }

-- `struct S { int x; }; class S { bool x; }; f(int); f(bool); f(int); typedef int T; typedef bool T; typedef int T;`
def unit : SourceUnit where
  root := .wholeFile 0
  forest := .ofList [
    (opened, .ofList [(member 2 opened .int, .nil)]), (reopened, .ofList [(member 4 reopened .bool, .nil)]),
    (function 5 .int, .nil), (function 6 .bool, .nil), (function 7 .int, .nil),
    (synonym 8 .int, .nil), (synonym 9 .bool, .nil), (synonym 10 .int, .nil)]

def events : List Moment := (Collector.start "/" [] {}).history [unit]

def state : Collector := ((Collector.start "/" [] {}).states [unit]).getLast (List.cons_ne_nil _ _)

end Duplicates

open Duplicates in
theorem repeated_declarations_leave_one_record :
    (Moment.fieldsRead events "::S").map (fun field => (field.typeText, field.visibility)) =
        [("int", .everyone), ("bool", .owner)] ∧
      (∃ entry ∈ state.db.classes, entry.fullName = "::S" ∧ (entry.record.fields.map (·.name)).Nodup ∧
        entry.record.fields.find? (·.name == "x") = (Moment.fieldsRead events "::S").find? (·.name == "x")) ∧
      state.db.functions.map (·.params.map Parameter.typeText) = [["int"], ["bool"]] ∧
      (state.db.types.filter (·.kind == .aliasType)).map (·.fullName) = ["int", "bool"] := by
  have reached : ((Collector.start "/" [] {}).states [unit])[10]? = some state := rfl
  obtain ⟨hfields, -, -⟩ := records_are_unique reached
  have hclasses : state.db.classes.map ClassEntry.fullName = ["::S"] := rfl
  obtain ⟨entry, he, hname⟩ := List.mem_map.mp (hclasses ▸ List.mem_singleton.mpr rfl)
  obtain ⟨hnodup, hfirst⟩ := hfields entry he
  refine ⟨rfl, ⟨entry, he, hname, hnodup, ?_⟩, rfl, rfl⟩
  rw [hfirst "x", hname]
  rfl

end SymbolIndex
