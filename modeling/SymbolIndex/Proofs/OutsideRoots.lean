import SymbolIndex.Proofs.History

/-!
# Files outside the roots

An event of a file outside the roots changes nothing, not even an open template, and what is below it is
not walked. So a unit may as well be without the declarations of such files and all that is below them.
-/

namespace SymbolIndex

namespace Forest

def prune (keep : Decl → Bool) : Forest → Forest
  | nil => nil
  | cons decl children rest =>
    if keep decl then cons decl (children.prune keep) (rest.prune keep) else rest.prune keep

/-- A walk that passes over a declaration without a trace may as well not meet it. -/
theorem walk_prune {σ ε : Type} {step : WalkStep σ ε} {keep : Decl → Bool} {P : σ → Prop}
    (keeps : ∀ s decl parent, P s → P (step s decl parent).1)
    (skips : ∀ s decl parent, P s → keep decl = false → step s decl parent = (s, .ok .pass)) :
    ∀ (forest : Forest) (parent : Decl) (s : σ), P s →
      (forest.prune keep).walk step parent s = forest.walk step parent s
  | nil, _, _, _ => rfl
  | cons decl children rest, parent, s, hs => by
    have hrest : ∀ s, P s → (rest.prune keep).walk step parent s = rest.walk step parent s :=
      walk_prune keeps skips rest parent
    by_cases hk : keep decl = true
    · rw [prune, if_pos hk]
      have hhere := keeps s decl parent hs
      simp only [walk]
      generalize step s decl parent = result at hhere
      obtain ⟨s₁, answer⟩ := result
      cases answer with
      | error e => rfl
      | ok d =>
        cases d with
        | stop => rfl
        | pass => exact hrest s₁ hhere
        | enter =>
          simp only
          rw [walk_prune keeps skips children decl s₁ hhere]
          have hbelow : P (children.walk step decl s₁).1 :=
            walk_invariant (fun s parent node _ => keeps s node.1 parent) hhere
          generalize children.walk step decl s₁ = below at hbelow
          obtain ⟨s₂, answer⟩ := below
          cases answer with
          | error e => rfl
          | ok finished =>
            cases finished with
            | false => rfl
            | true => exact hrest s₂ hbelow
    · have hk : keep decl = false := by simpa using hk
      rw [prune, hk, if_neg (by simp), hrest s hs, walk, skips s decl parent hs hk]

end Forest

def SourceUnit.prune (keep : Decl → Bool) (unit : SourceUnit) : SourceUnit :=
  { unit with forest := unit.forest.prune keep }

namespace Collector

def reaches (c : Collector) (decl : Decl) : Bool := c.roots.any (Path.isUnder · (c.fileOf decl))

theorem counts_eq_reaches {c : Collector} (configured : c.roots ≠ []) : c.counts = c.reaches := by
  have hroots : c.roots.isEmpty = false := by simpa using configured
  funext decl
  rw [counts, includes, hroots, Bool.false_or, rootOf?, reaches, Bool.eq_iff_iff]
  simp

theorem step_uncounted {c : Collector} {decl : Decl} (h : c.counts decl = false) (notes : List Note) (parent : Decl) :
    step (c, notes) decl parent = ((c, notes), .ok .pass) := by
  unfold counts at h
  have hpassed : c.visit decl parent.site = c.answer c.db .pass [] := by
    rw [visit, if_neg (by simp [h])]
  simp [step, hpassed, answer]

theorem collect_prune_counts (c : Collector) (unit : SourceUnit) :
    c.collect (unit.prune c.counts) = c.collect unit := by
  -- what counts depends on the paths alone, and no event changes them
  refine Forest.walk_prune (P := fun s : Collector × List Note => s.1.base = c.base ∧ s.1.roots = c.roots) ?_ ?_
    unit.forest unit.root (c.closeTemplates, []) ⟨rfl, rfl⟩
  · rintro ⟨c', notes⟩ decl parent ⟨hb, hr⟩
    obtain ⟨hb', hr'⟩ := c'.visit_paths decl parent.site
    exact ⟨hb'.trans hb, hr'.trans hr⟩
  · rintro ⟨c', notes⟩ decl parent ⟨hb, hr⟩ hout
    rw [← counts_congr hb hr] at hout
    exact step_uncounted hout notes parent

end Collector

/-- With roots, a unit without the declarations of other files, and without all that is below those,
gives the same database, the same open templates, the same notes and the same answer. -/
theorem outside_files_have_no_influence (c : Collector) (configured : c.roots ≠ []) (unit : SourceUnit) :
    c.collect (unit.prune c.reaches) = c.collect unit := by
  rw [← Collector.counts_eq_reaches configured]
  exact c.collect_prune_counts unit

namespace OutsideRoots

def box : Decl := { (Decl.wholeFile 0).within 1 .classTemplate "Box" with file := some "/p/box.h" }
def parameter : Decl := { box.within 2 .templateTypeParameter "T" with file := some "/p/box.h" }
def outside : Decl := { box.within 3 .structDecl "Mixin" with file := some "/q/mixin.h" }
def inside : Decl := { outside.within 4 .methodDecl "f" with file := some "/p/box.h" }

def fallback : Decl :=
  { box.within 5 .typeRef "int" with file := some "/p/box.h", type := .builtin {} .int }

-- a template of a file below the root, with a foreign class between its parameter and the default of that
def unit : SourceUnit where
  root := .wholeFile 0
  forest := .ofList [(box, .ofList [(parameter, .nil), (outside, .ofList [(inside, .nil)]), (fallback, .nil)])]

def rooted : Collector := .start "/" ["/p"] {}

def rootless : Collector := .start "/" [] {}

end OutsideRoots

open OutsideRoots in
theorem default_found_past_foreign_class :
    (unit.prune rooted.reaches).decls = [.wholeFile 0, box, parameter, fallback] ∧
      rooted.collect (unit.prune rooted.reaches) = rooted.collect unit ∧
      (rooted.collect unit).1.1.db.classes.map (fun entry => (entry.fullName, entry.record.templateParams)) =
        [("::Box", [{ name := "T", default := some "int" }])] := by
  refine ⟨by decide, outside_files_have_no_influence rooted (by decide) unit, by decide⟩

open OutsideRoots in
theorem every_file_counts_without_roots :
    rootless.collect (unit.prune rootless.reaches) ≠ rootless.collect unit := by
  have hpruned : (rootless.collect (unit.prune rootless.reaches)).1.1.db.classes.length = 0 := by decide
  have hwhole : (rootless.collect unit).1.1.db.classes.length = 1 := by decide
  intro h
  rw [h, hwhole] at hpruned
  cases hpruned

end SymbolIndex
