import SymbolIndex.Proofs.Effect

/-!
# The type table

The type table only grows. Apart from enums and aliases it lists the classes, in the order of their
registration, and every enum is in it too.
-/

namespace SymbolIndex

def ClassEntry.tableEntry (entry : ClassEntry) : TypeRef :=
  Database.declaredType entry.record.name entry.fullName entry.record.key.typeKind

structure Database.Listed (db : Database) : Prop where
  classes : db.types.filter (fun t => t.kind != .enumType && t.kind != .aliasType) =
    db.classes.map ClassEntry.tableEntry
  enums : ∀ e ∈ db.enums, e.tableEntry ∈ db.types

namespace Database

theorem Listed.empty (base : String) (roots : List String) : (Collector.start base roots {}).db.Listed :=
  ⟨rfl, by simp [Collector.start]⟩

theorem Listed.mem_types {db : Database} (h : db.Listed) {entry : ClassEntry} (hm : entry ∈ db.classes) :
    entry.tableEntry ∈ db.types := by
  have hmem : entry.tableEntry ∈ db.classes.map ClassEntry.tableEntry := List.mem_map_of_mem hm
  rw [← h.classes] at hmem
  exact (List.mem_filter.mp hmem).1

theorem tableEntries_of_outline {db db' : Database} (ho : db'.outline = db.outline) :
    db'.classes.map ClassEntry.tableEntry = db.classes.map ClassEntry.tableEntry := by
  have hview : ∀ d : Database, d.classes.map ClassEntry.tableEntry = d.outline.classes.map ClassEntry.tableEntry := by
    intro d
    simp only [outline, List.map_map]
    rfl
  rw [hview, ho, ← hview]

theorem Listed.of_outline {db db' : Database} (ho : db'.outline = db.outline) (h : db.Listed) : db'.Listed := by
  constructor
  · rw [types_of_outline ho, tableEntries_of_outline ho]
    exact h.classes
  · rw [types_of_outline ho, enums_of_outline ho]
    exact h.enums

theorem updateClass_tableEntries (db : Database) (fullName : String) {change : ClassEntry → ClassEntry}
    (h : ∀ e, (change e).tableEntry = e.tableEntry) :
    (db.updateClass fullName change).classes.map ClassEntry.tableEntry = db.classes.map ClassEntry.tableEntry := by
  rw [updateClass, List.map_map]
  apply List.map_congr_left
  intro e _
  simp only [Function.comp_apply]
  by_cases hn : e.fullName = fullName
  · rw [if_pos hn, h]
  · rw [if_neg hn]

theorem redeclare_tableEntry (entry : ClassEntry) (c : Class) (place : Place) (access : Access) :
    (redeclare entry c place access).tableEntry = entry.tableEntry := by
  unfold redeclare
  split <;> rfl

theorem addClass_tableEntries (db : Database) (c : Class) (place : Place) (access : Access) :
    (db.addClass c place access).db.enums = db.enums ∧
      (((db.addClass c place access).db.types = db.types ∧
          (db.addClass c place access).db.classes.map ClassEntry.tableEntry = db.classes.map ClassEntry.tableEntry) ∨
        ((db.addClass c place access).db.types = db.types ++ [declaredType c.name c.fullName c.key.typeKind] ∧
          (db.addClass c place access).db.classes.map ClassEntry.tableEntry =
            db.classes.map ClassEntry.tableEntry ++ [declaredType c.name c.fullName c.key.typeKind])) := by
  unfold addClass
  split
  · have hsame := db.updateClass_tableEntries c.fullName fun e => redeclare_tableEntry e c place access
    exact ⟨rfl, Or.inl ⟨rfl, hsame⟩⟩
  · refine ⟨rfl, Or.inr ⟨rfl, ?_⟩⟩
    rw [List.map_append]
    rfl

theorem addNamespace_types (db : Database) (name fullName : String) (place : Place) :
    (db.addNamespace name fullName place).types = db.types ∧
      (db.addNamespace name fullName place).classes = db.classes ∧
      (db.addNamespace name fullName place).enums = db.enums := by
  unfold addNamespace
  split <;> exact ⟨rfl, rfl, rfl⟩

end Database

section
variable {c : Collector} {decl : Decl} {parent : Site} {db : Database} {d : Directive}

theorem Extends.tableEntry {e e' : ClassEntry} (h : Extends decl e e') : e'.tableEntry = e.tableEntry := by
  unfold ClassEntry.tableEntry
  rw [h.fullName, h.name, h.key]

theorem Collector.Effect.tableEntries (heff : c.Effect decl parent db d) :
    db.classes.map ClassEntry.tableEntry = c.db.classes.map ClassEntry.tableEntry ∨
      ∃ scope, decl.kind.isClass = true ∧ c.classContext parent = .within scope ∧
        db.classes.map ClassEntry.tableEntry = c.db.classes.map ClassEntry.tableEntry ++
          [Database.declaredType decl.spelling (c.classRecord decl scope).fullName decl.classKey.typeKind] := by
  cases heff with
  | opened kind named db_eq =>
    rw [db_eq, (c.db.addNamespace_types ..).2.1]
    exact Or.inl rfl
  | declared scope kind named context db_eq d entered =>
    rw [db_eq]
    rcases (c.db.addClass_tableEntries (c.classRecord decl scope) decl.place decl.classKey.access).2 with h | h
    · exact Or.inl h.2
    · exact Or.inr ⟨scope, kind, context, h.2⟩
  | member entry change kind known db_eq extended d =>
    rw [db_eq]
    exact Or.inl (c.db.updateClass_tableEntries entry.fullName fun e => (extended e).tableEntry)
  | quiet beside other d leaf =>
    rw [beside.classes]
    exact Or.inl rfl

theorem Collector.Effect.types (heff : c.Effect decl parent db d) : ∃ new, db.types = c.db.types ++ new := by
  cases heff with
  | opened kind named db_eq =>
    rw [db_eq, (c.db.addNamespace_types ..).1]
    exact ⟨[], by simp⟩
  | declared scope kind named context db_eq d entered =>
    rw [db_eq]
    rcases (c.db.addClass_tableEntries (c.classRecord decl scope) decl.place decl.classKey.access).2 with h | h
    · exact ⟨[], by simp [h.1]⟩
    · exact ⟨_, h.1⟩
  | member entry change kind known db_eq extended d =>
    rw [db_eq]
    exact ⟨[], by simp [Database.updateClass]⟩
  | quiet beside other d leaf =>
    obtain ⟨new, hnew, -⟩ := beside.types
    exact ⟨new, hnew⟩

theorem Database.Listed.effect (h : c.db.Listed) (heff : c.Effect decl parent db d) : db.Listed := by
  cases heff with
  | opened kind named db_eq =>
    obtain ⟨ht, hc, he⟩ := c.db.addNamespace_types decl.spelling (c.namespaceName decl parent) decl.place
    rw [← db_eq] at ht hc he
    constructor
    · rw [ht, hc]
      exact h.classes
    · rw [ht, he]
      exact h.enums
  | declared scope kind named context db_eq d entered =>
    obtain ⟨he, hadded⟩ := c.db.addClass_tableEntries (c.classRecord decl scope) decl.place decl.classKey.access
    rw [← db_eq] at he hadded
    rcases hadded with ⟨ht, hc⟩ | ⟨ht, hc⟩
    · constructor
      · rw [ht, hc]
        exact h.classes
      · rw [ht, he]
        exact h.enums
    · constructor
      · rw [ht, hc, List.filter_append, h.classes]
        cases hkey : (c.classRecord decl scope).key <;> simp [declaredType, ClassKey.typeKind]
      · intro e hm
        rw [he] at hm
        rw [ht]
        exact List.mem_append_left _ (h.enums e hm)
  | member entry change kind known db_eq extended d =>
    subst db_eq
    constructor
    · rw [c.db.updateClass_tableEntries entry.fullName fun e => (extended e).tableEntry]
      exact h.classes
    · exact h.enums
  | quiet beside other d leaf =>
    obtain ⟨new, hnew, hkinds⟩ := beside.types
    constructor
    · have hnone : new.filter (fun t => t.kind != .enumType && t.kind != .aliasType) = [] := by
        rw [List.filter_eq_nil_iff]
        intro t ht
        rcases hkinds t ht with hk | hk <;> simp [hk]
      rw [hnew, List.filter_append, hnone, List.append_nil, beside.classes]
      exact h.classes
    · intro e hm
      rcases beside.enums e hm with ⟨hin, -⟩ | ⟨old, hold, heq, -⟩
      · exact hin
      · rw [hnew, ← heq]
        exact List.mem_append_left _ (h.enums old hold)

end

namespace Collector

theorem listed_visit (c : Collector) (decl : Decl) (parent : Site) (h : c.db.Listed) :
    (c.visit decl parent).collector.db.Listed :=
  visit_invariant (fun _ _ ho h => h.of_outline ho) (fun _ _ _ _ heff h => h.effect heff) h

theorem types_visit (c : Collector) (decl : Decl) (parent : Site) :
    ∃ new, (c.visit decl parent).collector.db.types = c.db.types ++ new := by
  refine visit_invariant (P := fun db => ∃ new, db.types = c.db.types ++ new) ?_ ?_ ⟨[], by simp⟩
  · intro db db' ho h
    rw [Database.types_of_outline ho]
    exact h
  · intro c' db d _ heff h
    obtain ⟨new, hnew⟩ := h
    obtain ⟨new', hnew'⟩ := heff.types
    exact ⟨new ++ new', by rw [hnew', hnew, List.append_assoc]⟩

end Collector

end SymbolIndex
