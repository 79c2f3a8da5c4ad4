import SymbolIndex.Proofs.AppendOnly
import SymbolIndex.Proofs.ClassOrigin
import SymbolIndex.Proofs.Ledger
import SymbolIndex.Proofs.OutsideRoots
import SymbolIndex.Proofs.PathComponents

/-!
# Which root a file belongs to

A file belongs to the first root whose components its own begin with, and its include path is the way down from
there. With roots, an event files a declaration of such a file only, so every record of a run has its origin under
a root and the include path that goes with it.
-/

namespace SymbolIndex

open SymbolIndex.Path

namespace Collector

variable {c : Collector} {path : String}

section
variable (hroots : ∀ root ∈ c.roots, IsNormal root) (hpath : IsNormal path)
include hroots hpath

theorem rootOf?_eq : c.rootOf? path =
    c.roots.find? fun root => decide (components c.base root <+: components c.base path) := by
  rw [rootOf?, ← List.head?_filter, ← List.head?_filter]
  congr 1
  apply List.filter_congr
  intro root hroot
  rw [Bool.eq_iff_iff, (hroots root hroot).isUnder_iff hpath c.base, decide_eq_true_iff]

theorem includes_iff : c.includes path = true ↔
    c.roots = [] ∨ ∃ root ∈ c.roots, components c.base root <+: components c.base path := by
  rw [includes, Bool.or_eq_true, List.isEmpty_iff, rootOf?_eq hroots hpath, List.find?_isSome]
  simp only [decide_eq_true_eq]

theorem includePath_of_root {root : String} {rest : List String}
    (first : c.roots.find? (fun root => decide (components c.base root <+: components c.base path)) = some root)
    (h : components c.base path = components c.base root ++ rest) :
    c.includePath path = wayDown rest ∧ normalize c.base (inside root (c.includePath path)) = path ∧
      ".." ∉ segments (c.includePath path) := by
  obtain ⟨hrelative, hback, hup⟩ := (hroots root (List.mem_of_find?_eq_some first)).relative_eq hpath c.base h
  have hshown : c.includePath path = wayDown rest := by
    rw [includePath, rootOf?_eq hroots hpath, first]
    exact hrelative
  rw [hshown]
  exact ⟨rfl, hback, hup⟩

theorem includePath_outside (h : ∀ root ∈ c.roots, ¬ components c.base root <+: components c.base path) :
    c.includePath path = path := by
  have hnone : c.rootOf? path = none := by
    rw [rootOf?_eq hroots hpath, List.find?_eq_none]
    intro root hroot
    simpa using h root hroot
  rw [includePath, hnone]

end

theorem start_roots_normal (base : String) (directories : List String) (db : Database) :
    ∀ root ∈ (start base directories db).roots, IsNormal root := by
  intro root hroot
  obtain ⟨directory, -, rfl⟩ := List.mem_map.mp hroot
  exact normalize_isNormal base directory

end Collector

/-! ## Origins over a run -/

/-- Every record comes from an admitted file, and a class or function has the include path that goes with it. -/
structure Database.Placed (admits : String → Prop) (shown : String → String) (db : Database) : Prop where
  classes : ∀ entry ∈ db.classes,
    admits entry.record.fromFile ∧ entry.record.includePath = shown entry.record.fromFile
  functions : ∀ function ∈ db.functions, admits function.fromFile ∧ function.includePath = shown function.fromFile
  enums : ∀ entry ∈ db.enums, admits entry.record.fromFile

section
variable {admits : String → Prop} {shown : String → String}

namespace Database.Placed

variable {db db' : Database}

theorem of_outline (ho : db'.outline = db.outline) (h : db.Placed admits shown) : db'.Placed admits shown where
  classes := by
    intro entry he
    have hm := List.mem_map_of_mem (f := ClassEntry.outline) he
    rw [show db'.classes.map ClassEntry.outline = db.classes.map ClassEntry.outline from congrArg Database.classes ho]
      at hm
    obtain ⟨old, hold, hsame⟩ := List.mem_map.mp hm
    have horigin : old.record.origin = entry.record.origin := congrArg (fun e => e.record.origin) hsame
    obtain ⟨hfile, hpath⟩ := Prod.mk.inj horigin
    rw [← hfile, ← hpath]
    exact h.classes old hold
  functions := by
    intro function hf
    have hm := List.mem_map_of_mem (f := FreeFunction.outline) hf
    rw [show db'.functions.map FreeFunction.outline = db.functions.map FreeFunction.outline from
      congrArg Database.functions ho] at hm
    obtain ⟨old, hold, hsame⟩ := List.mem_map.mp hm
    have hfile : old.fromFile = function.fromFile := (congrArg FreeFunction.fromFile hsame :)
    have hpath : old.includePath = function.includePath := (congrArg FreeFunction.includePath hsame :)
    rw [← hfile, ← hpath]
    exact h.functions old hold
  enums := by
    rw [enums_of_outline ho]
    exact h.enums

theorem updateClass (h : db.Placed admits shown) (fullName : String) {change : ClassEntry → ClassEntry}
    (hchange : ∀ entry, (change entry).record.origin = entry.record.origin ∨
      ∃ file, admits file ∧ (change entry).record.origin = (file, shown file)) :
    (db.updateClass fullName change).Placed admits shown where
  classes := by
    intro entry he
    obtain ⟨old, hold, rfl⟩ := List.mem_map.mp he
    split
    · rcases hchange old with hsame | ⟨file, hfile, hnew⟩
      · obtain ⟨hfile, hpath⟩ := Prod.mk.inj hsame
        rw [hfile, hpath]
        exact h.classes old hold
      · obtain ⟨hfrom, hpath⟩ := Prod.mk.inj hnew
        rw [hfrom, hpath]
        exact ⟨hfile, rfl⟩
    · exact h.classes old hold
  functions := h.functions
  enums := h.enums

end Database.Placed

namespace Collector

variable {c : Collector} {decl : Decl} {parent : Site}

theorem Adds.origin {owner : ClassEntry} {change : ClassEntry → ClassEntry} (h : c.Adds owner decl change)
    (entry : ClassEntry) : (change entry).record.origin = entry.record.origin := by
  cases h <;> rfl

theorem Writes.placed {db : Database} (hfile : admits (c.fileOf decl)) (hshown : c.includePath = shown)
    (h : c.Writes decl parent db) (hplaced : c.db.Placed admits shown) : db.Placed admits shown := by
  cases h with
  | nothing => exact hplaced
  | ofNamespace kind named =>
    rw [Database.addNamespace_eq]
    exact { hplaced with }
  | ofClass scope kind named context =>
    unfold Database.addClass
    split
    · apply hplaced.updateClass
      intro entry
      unfold Database.redeclare
      split
      · exact Or.inr ⟨c.fileOf decl, hfile, by rw [← hshown]; rfl⟩
      · exact Or.inl rfl
    · refine { hplaced with classes := ?_ }
      intro entry he
      rcases List.mem_append.mp he with he | he
      · exact hplaced.classes entry he
      · rw [List.mem_singleton.mp he, ← hshown]
        exact ⟨hfile, rfl⟩
  | ofEnum kind named =>
    unfold Database.addEnum
    split
    · exact hplaced
    · refine { hplaced with enums := ?_ }
      intro entry he
      rcases List.mem_append.mp he with he | he
      · exact hplaced.enums entry he
      · rw [List.mem_singleton.mp he]
        exact hfile
  | ofConstant kind =>
    refine { hplaced with enums := ?_ }
    intro entry he
    have hm := List.mem_map_of_mem (f := fun e : EnumEntry => e.record.fromFile) he
    rw [Database.addConstant, Database.addConstantTo_map fun _ _ => rfl] at hm
    obtain ⟨old, hold, hsame⟩ := List.mem_map.mp hm
    rw [← hsame]
    exact hplaced.enums old hold
  | ofAlias scope kind context =>
    unfold Database.addType
    split
    · exact hplaced
    · exact { hplaced with }
  | ofFunction signature kind free read =>
    unfold Database.addFunction
    split
    · exact hplaced
    · refine { hplaced with functions := ?_ }
      intro function hf
      rcases List.mem_append.mp hf with hf | hf
      · exact hplaced.functions function hf
      · rw [List.mem_singleton.mp hf, ← hshown]
        exact ⟨hfile, rfl⟩
  | ofMember owner kind known adds => exact hplaced.updateClass _ fun entry => Or.inl (adds.origin entry)

theorem visit_placed (hfile : c.counts decl = true → admits (c.fileOf decl))
    (hplaced : c.db.Placed admits c.includePath) :
    (c.visit decl parent).collector.db.Placed admits c.includePath := by
  by_cases hcounts : c.counts decl = true
  · rcases c.visit_writes decl parent with hsame | hwrites
    · rw [hsame]
      exact hplaced
    · have ha := c.offered_alike decl parent
      rw [← ha.fileOf] at hfile
      exact hwrites.placed (hfile hcounts) (funext ha.includePath) (hplaced.of_outline ha.outline)
  · unfold counts at hcounts
    rw [visit, if_neg hcounts]
    exact hplaced

theorem under_root_of_counts (hroots : ∀ root ∈ c.roots, IsNormal root) (configured : c.roots ≠ [])
    (h : c.counts decl = true) :
    ∃ root ∈ c.roots, components c.base root <+: components c.base (c.fileOf decl) := by
  rw [counts_eq_reaches configured, reaches, List.any_eq_true] at h
  obtain ⟨root, hroot, hunder⟩ := h
  refine ⟨root, hroot, ?_⟩
  cases hfile : decl.file with
  | none =>
    simp only [fileOf, hfile, Option.map_none, Option.getD_none] at hunder
    exact absurd hunder (by simp [(hroots root hroot).not_isUnder_empty])
  | some file =>
    simp only [fileOf, hfile, Option.map_some, Option.getD_some] at hunder ⊢
    exact ((hroots root hroot).isUnder_iff (normalize_isNormal c.base file) c.base).mp hunder

theorem collectAll_placed (hroots : ∀ root ∈ c.roots, IsNormal root) (configured : c.roots ≠ [])
    (units : List SourceUnit) (empty : c.db = {}) :
    (c.collectAll units).db.Placed (fun file => ∃ root ∈ c.roots, components c.base root <+: components c.base file)
      c.includePath := by
  have hall : ∀ u ∈ units, u ∈ units := fun _ hu => hu
  have hkept := history_invariant
    (P := fun c' => c'.base = c.base ∧ c'.roots = c.roots ∧
      c'.db.Placed (fun file => ∃ root ∈ c.roots, components c.base root <+: components c.base file) c.includePath)
    (fun _ hP => hP) ?_ hall ⟨rfl, rfl, by rw [empty]; exact ⟨by simp, by simp, by simp⟩⟩
  · exact hkept.1.2.2
  · rintro c' decl parent - ⟨hb, hr, hplaced⟩
    obtain ⟨hb', hr'⟩ := c'.visit_paths decl parent
    refine ⟨hb'.trans hb, hr'.trans hr, ?_⟩
    have hshown : c'.includePath = c.includePath := by
      funext path
      simp [includePath, rootOf?, hb, hr]
    rw [← hshown, ← hb, ← hr] at hplaced ⊢
    exact visit_placed (under_root_of_counts (hr ▸ hroots) (hr ▸ configured)) hplaced

end Collector

end

/-- Roots contain files by components, include paths lead from the first such root back to the file, and the records
of a run with roots come from files they contain. -/
theorem roots_contain_by_components (c : Collector) (hroots : ∀ root ∈ c.roots, IsNormal root) :
    (∀ path, IsNormal path →
      (c.includes path = true ↔
        c.roots = [] ∨ ∃ root ∈ c.roots, components c.base root <+: components c.base path) ∧
      (∀ root rest,
        c.roots.find? (fun root => decide (components c.base root <+: components c.base path)) = some root →
        components c.base path = components c.base root ++ rest →
          c.includePath path = wayDown rest ∧ normalize c.base (inside root (c.includePath path)) = path ∧
            ".." ∉ segments (c.includePath path)) ∧
      ((∀ root ∈ c.roots, ¬ components c.base root <+: components c.base path) → c.includePath path = path)) ∧
    (c.roots ≠ [] → c.db = {} → ∀ units,
      (c.collectAll units).db.Placed
        (fun file => ∃ root ∈ c.roots, components c.base root <+: components c.base file) c.includePath) := by
  constructor
  · intro path hpath
    refine ⟨Collector.includes_iff hroots hpath, ?_, Collector.includePath_outside hroots hpath⟩
    intro root rest first hrest
    exact Collector.includePath_of_root hroots hpath first hrest
  · intro configured empty units
    exact Collector.collectAll_placed hroots configured units empty

namespace Overlapping

-- the roots `/p/inc`, `/p` and `/`, where `/p/include` is beside the first and not below it
def roots : Collector := .start "/p" ["inc", "/p/include/..", "/"] {}

def early : Decl := { (Decl.wholeFile 0).within 1 .structDecl "S" with file := some "include/s.h" }
def late : Decl := { (Decl.wholeFile 0).within 2 .structDecl "S" with file := some "include/../inc/s.h" }
def hidden : Decl := (Decl.wholeFile 0).within 3 .enumDecl "H"
def shown : Decl := { (Decl.wholeFile 0).within 4 .enumDecl "E" with file := some "/q/e.h" }

-- `struct S;` in two files, and two enums, the first of no file
def unit : SourceUnit where
  root := .wholeFile 0
  forest := .ofList [(early, .nil), (late, .nil), (hidden, .nil), (shown, .nil)]

def walked : Database := (roots.collectAll [unit]).db

end Overlapping

open Overlapping in
theorem file_beside_overlapping_root :
    roots.includePath "/p/include/a.h" = "include/a.h" ∧
      Path.normalize "/p" (Path.inside "/p" (roots.includePath "/p/include/a.h")) = "/p/include/a.h" ∧
      walked.Placed (fun file => ∃ root ∈ roots.roots, components "/p" root <+: components "/p" file)
        roots.includePath ∧
      walked.classes.map (fun entry => entry.record.origin) = [("/p/inc/s.h", "s.h")] ∧
      walked.enums.map (fun entry => entry.record.fromFile) = ["/q/e.h"] := by
  obtain ⟨hpaths, hrun⟩ := roots_contain_by_components roots (Collector.start_roots_normal _ _ _)
  obtain ⟨-, hfirst, -⟩ := hpaths "/p/include/a.h" (by decide)
  obtain ⟨hpath, hback, -⟩ := hfirst "/p" ["include", "a.h"] (by decide) (by decide)
  have hway : wayDown ["include", "a.h"] = "include/a.h" := by decide
  exact ⟨hpath.trans hway, hback, hrun (by decide) rfl [unit], by decide, by decide⟩

end SymbolIndex
