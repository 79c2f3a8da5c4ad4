import Mathlib.Data.List.Pairwise
import Mathlib.Tactic.MkIffOfInductiveProp
import SymbolIndex.Proofs.Passage

/-!
# Runs over several units

One collector walks any number of units. The sites of well-formed units are a terrain, so full names
are the written ones in every state of a run.
-/

namespace SymbolIndex

/-- A declaration of which only the place matters. -/
def Decl.bare (serial : Nat) (kind : NodeKind) (spelling : String) (around : List Place) : Decl :=
  { site := ⟨⟨serial, none, kind, spelling⟩, around⟩ }

def Decl.wholeFile (serial : Nat) : Decl := .bare serial .sourceUnit "" []

def Decl.within (around : Decl) (serial : Nat) (kind : NodeKind) (spelling : String) : Decl :=
  .bare serial kind spelling around.site.chain

namespace SourceUnit

def decls (unit : SourceUnit) : List Decl := unit.root :: unit.forest.nodes.map Prod.fst

end SourceUnit

/-- No two declarations of units are the same place. One unit may come more than once. -/
@[mk_iff]
structure DistinctPlaces (units : List SourceUnit) : Prop where
  distinct : ∀ u ∈ units, u.decls.Pairwise fun a b => a.place.same b.place = false
  apart : ∀ u ∈ units, ∀ v ∈ units, u ≠ v → ∀ a ∈ u.decls, ∀ b ∈ v.decls, a.place.same b.place = false

/-- Units as a parser hands them out: under the node of a whole file, every semantic chain is that of
the enclosing declaration, and no two declarations are the same place. -/
@[mk_iff]
structure WellFormed (units : List SourceUnit) : Prop extends DistinctPlaces units where
  rooted : ∀ u ∈ units, u.root.kind = .sourceUnit ∧ u.root.site.outer = []
  enclosed : ∀ u ∈ units, u.forest.Enclosed u.root.site

instance (units : List SourceUnit) : Decidable (DistinctPlaces units) :=
  decidable_of_iff' _ (distinctPlaces_iff units)

instance (units : List SourceUnit) : Decidable (WellFormed units) := decidable_of_iff' _ (wellFormed_iff units)

namespace DistinctPlaces

variable {units : List SourceUnit}

theorem eq_of_same (h : DistinctPlaces units) {u v : SourceUnit} (hu : u ∈ units) (hv : v ∈ units) {a b : Decl}
    (ha : a ∈ u.decls) (hb : b ∈ v.decls) (hs : a.place.same b.place = true) : a = b := by
  by_cases huv : u = v
  · subst huv
    by_contra hne
    have hsymm : Std.Symm fun a b : Decl => a.place.same b.place = false :=
      ⟨fun a b h => by rw [Place.same_comm]; exact h⟩
    have := (h.distinct u hu).forall ha hb hne
    rw [hs] at this
    cases this
  · have := h.apart u hu v hv huv a ha b hb
    rw [hs] at this
    cases this

theorem nodup_decls (h : DistinctPlaces units) {u : SourceUnit} (hu : u ∈ units) : u.decls.Nodup := by
  refine (h.distinct u hu).imp ?_
  intro a b hne hab
  subst hab
  rw [Place.same_refl] at hne
  cases hne

theorem children_eq (h : DistinctPlaces units) {u v : SourceUnit} (hu : u ∈ units) (hv : v ∈ units) {decl : Decl}
    {children children' : Forest} (hm : (decl, children) ∈ u.forest.nodes) (hm' : (decl, children') ∈ v.forest.nodes) :
    children = children' := by
  by_cases huv : u = v
  · subst huv
    exact congrArg Prod.snd (List.inj_on_of_nodup_map (List.nodup_cons.mp (h.nodup_decls hu)).2 hm hm' rfl)
  · have hd : decl ∈ u.decls := List.mem_cons_of_mem _ (List.mem_map_of_mem hm)
    have hd' : decl ∈ v.decls := List.mem_cons_of_mem _ (List.mem_map_of_mem hm')
    have hne := h.apart u hu v hv huv decl hd decl hd'
    rw [Place.same_refl] at hne
    cases hne

end DistinctPlaces

def SitesOf (units : List SourceUnit) (a : Site) : Prop := ∃ u ∈ units, ∃ d ∈ u.decls, d.site = a

namespace WellFormed

variable {units : List SourceUnit}

theorem terrain (h : WellFormed units) : Terrain (SitesOf units) where
  distinct := by
    rintro - - ⟨u, hu, a, ha, rfl⟩ ⟨v, hv, b, hb, rfl⟩ hs
    rw [h.eq_of_same hu hv ha hb hs]
  outward := by
    rintro - ⟨u, hu, a, ha, rfl⟩ hk
    rcases List.mem_cons.mp ha with rfl | ha
    · exact absurd (h.rooted u hu).1 hk
    · obtain ⟨node, hnode, rfl⟩ := List.mem_map.mp ha
      rcases (h.enclosed u hu).outer hnode with ho | ⟨m, hm, ho⟩
      · exact ⟨_, ⟨u, hu, u.root, List.mem_cons_self .., rfl⟩, ho⟩
      · exact ⟨_, ⟨u, hu, m.1, List.mem_cons_of_mem _ (List.mem_map_of_mem hm), rfl⟩, ho⟩

theorem lies (h : WellFormed units) {u : SourceUnit} (hu : u ∈ units) :
    u.forest.Lies (SitesOf units) u.root.site :=
  ⟨⟨u, hu, u.root, List.mem_cons_self .., rfl⟩,
    fun node hm => ⟨u, hu, node.1, List.mem_cons_of_mem _ (List.mem_map_of_mem hm), rfl⟩, h.enclosed u hu⟩

theorem entered_root (h : WellFormed units) {u : SourceUnit} (hu : u ∈ units) (db : Database) :
    Entered db u.root.site.chain := by
  obtain ⟨hk, ho⟩ := h.rooted u hu
  intro p hp
  rw [Site.chain, ho, List.mem_singleton] at hp
  subst hp
  have hk' : u.root.site.place.kind = .sourceUnit := hk
  simp [hk', NodeKind.isClass]

end WellFormed

/-! ## Where namespaces stand -/

/-- Outward along a chain there are only linkage specifications and classes, up to a namespace or the
node of the whole file. -/
def inScope : List Place → Bool
  | [] => false
  | place :: outer =>
    match place.kind with
    | .sourceUnit | .namespaceDecl => true
    | .linkageSpec => inScope outer
    | kind => kind.isClass && inScope outer

theorem isSome_writtenScope : ∀ (chain : List Place), (writtenScope chain).isSome = inScope chain
  | [] => rfl
  | place :: outer => by
    have ih := isSome_writtenScope outer
    cases hk : place.kind <;> simp [writtenScope, inScope, hk, NodeKind.isClass, ih]

def NamespacesPlaced (units : List SourceUnit) : Prop :=
  ∀ u ∈ units, ∀ d ∈ u.decls, d.kind = .namespaceDecl → inScope d.site.outer = true

instance (units : List SourceUnit) : Decidable (NamespacesPlaced units) :=
  inferInstanceAs (Decidable (∀ u ∈ units, ∀ d ∈ u.decls, d.kind = .namespaceDecl → inScope d.site.outer = true))

def NamespacesDirect (units : List SourceUnit) : Prop :=
  ∀ u ∈ units, ∀ d ∈ u.decls, d.kind = .namespaceDecl →
    ∃ p ∈ d.site.outer.head?, p.kind ∈ [.sourceUnit, .namespaceDecl, .linkageSpec]

instance (units : List SourceUnit) : Decidable (NamespacesDirect units) :=
  inferInstanceAs (Decidable (∀ u ∈ units, ∀ d ∈ u.decls, d.kind = .namespaceDecl →
    ∃ p ∈ d.site.outer.head?, p.kind ∈ [.sourceUnit, .namespaceDecl, .linkageSpec]))

def FilesAtRoots (units : List SourceUnit) : Prop :=
  ∀ u ∈ units, ∀ node ∈ u.forest.nodes, node.1.kind ≠ .sourceUnit

instance (units : List SourceUnit) : Decidable (FilesAtRoots units) :=
  inferInstanceAs (Decidable (∀ u ∈ units, ∀ node ∈ u.forest.nodes, node.1.kind ≠ .sourceUnit))

/-! ## Runs -/

/-- Walks of units one after the other, none of which fails, with all their calls. -/
inductive Records : Collector → List SourceUnit → List WalkCall → Collector → Prop where
  | nil {c : Collector} : Records c [] [] c
  | cons {c c₁ c' : Collector} {unit : SourceUnit} {units : List SourceUnit} {calls calls' : List WalkCall}
      {notes : List Note} {finished : Bool}
      (walk : c.collectRecording unit = (((c₁, notes), calls), .ok finished))
      (further : Records c₁ units calls' c') : Records c (unit :: units) (calls ++ calls') c'

namespace Collector

/-- The collector after units walked one after the other. A walk that fails leaves what it did. -/
def collectAll (c : Collector) (units : List SourceUnit) : Collector :=
  units.foldl (fun c unit => (c.collect unit).1.1) c

/-- The states of a run over units: between two units, or during the last one. -/
inductive Reached (c : Collector) : List SourceUnit → Collector → Prop where
  | done (units : List SourceUnit) : Reached c units (c.collectAll units)
  | during (units : List SourceUnit) (unit : SourceUnit) {c' : Collector}
      (passes : Passes unit.forest unit.root (c.collectAll units).closeTemplates c') :
      Reached c (units ++ [unit]) c'

end Collector

theorem Passes.of_walk : ∀ (forest : Forest) (parent : Decl) (c : Collector) (notes : List Note),
    Passes forest parent c (forest.walk Collector.step parent (c, notes)).1.1
  | .nil, parent, c, notes => .start
  | .cons decl children rest, parent, c, notes => by
    simp only [Forest.walk, Collector.step]
    generalize hv : c.visit decl parent.site = o
    cases ha : o.answer with
    | error e => exact .event hv
    | ok d =>
      cases d with
      | stop => exact .event hv
      | pass => exact .pass hv ha (of_walk rest parent o.collector _)
      | enter =>
        simp only
        have hbelow := of_walk children decl o.collector (notes ++ o.notes)
        split
        · rename_i s hs
          obtain ⟨c₁, notes₁⟩ := s
          obtain ⟨-, calls, hw⟩ := Walks.of_walk hs
          exact .enter hv ha hw (of_walk rest parent c₁ notes₁)
        · exact .inside hv ha hbelow

theorem Named.empty (U : Site → Prop) (base : String) (roots : List String) :
    Named U (Collector.start base roots {}).db :=
  ⟨fun _ h => by simp [Collector.start, Database.namespaceMarks] at h,
    fun _ h => by simp [Collector.start, Database.classMarks] at h⟩

section
variable {units : List SourceUnit} (wf : WellFormed units) {P : Database → Prop}
  (hstep : ∀ {c : Collector} {decl : Decl} {parent : Site}, Situated (SitesOf units) c decl parent →
    P c.db → P (c.visit decl parent).collector.db)
include wf hstep

theorem WellFormed.collectAll_keeps {us : List SourceUnit} :
    ∀ {c : Collector}, (∀ u ∈ us, u ∈ units) → Named (SitesOf units) c.db → P c.db →
      Named (SitesOf units) (c.collectAll us).db ∧ P (c.collectAll us).db := by
  induction us with
  | nil => exact fun _ hn hP => ⟨hn, hP⟩
  | cons u us ih =>
    intro c hsub hn hP
    have hu := hsub u (List.mem_cons_self ..)
    have hpasses := Passes.of_walk u.forest u.root c.closeTemplates []
    obtain ⟨hn₁, hP₁⟩ := hpasses.keeps wf.terrain hstep (wf.lies hu) hn (wf.entered_root hu _) hP
    exact ih (fun v hv => hsub v (List.mem_cons_of_mem _ hv)) hn₁ hP₁

/-- In every state of a run over well-formed units, registered scopes have their written names, and
what every event keeps holds. -/
theorem WellFormed.reached_keeps {c c' : Collector} (hn : Named (SitesOf units) c.db) (hP : P c.db)
    (hr : c.Reached units c') : Named (SitesOf units) c'.db ∧ P c'.db := by
  cases hr with
  | done => exact wf.collectAll_keeps hstep (fun _ h => h) hn hP
  | during us u passes =>
    have hu : u ∈ us ++ [u] := by simp
    obtain ⟨hn₁, hP₁⟩ := wf.collectAll_keeps hstep (fun v hv => List.mem_append_left [u] hv) hn hP
    exact passes.keeps wf.terrain hstep (wf.lies hu) hn₁ (wf.entered_root hu _) hP₁

end

end SymbolIndex
