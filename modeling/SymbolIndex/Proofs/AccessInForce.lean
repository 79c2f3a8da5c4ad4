import SymbolIndex.Proofs.MemberOrigin
import SymbolIndex.Proofs.Situations

/-!
# The access in force

While the children of a class declaration are walked, its class has the access of the last access
specifier among the children so far, or the one that the declaration's own key stands for. What lies in
between does not change it: no class is declared inside itself.
-/

namespace SymbolIndex

def Collector.accessAfter (c : Collector) (owner : Decl) (older : List Decl) : Access :=
  ((older.filter fun d => c.counts d && d.kind == .accessSpec).getLast?.map Decl.access).getD owner.classKey.access

theorem Collector.accessAfter_concat (c : Collector) (owner : Decl) (older : List Decl) (decl : Decl) :
    c.accessAfter owner (older ++ [decl]) =
      if c.counts decl = true ∧ decl.kind = .accessSpec then decl.access else c.accessAfter owner older := by
  unfold accessAfter
  rw [List.filter_append]
  by_cases h : c.counts decl = true ∧ decl.kind = .accessSpec
  · simp [h.1, h.2]
  · rw [if_neg h]
    have hnone : ([decl].filter fun d => c.counts d && d.kind == .accessSpec) = [] := by
      simpa using h
    rw [hnone, List.append_nil]

theorem Collector.accessAfter_congr {c c' : Collector} (hb : c'.base = c.base) (hr : c'.roots = c.roots) (owner : Decl)
    (older : List Decl) : c'.accessAfter owner older = c.accessAfter owner older := by
  have hcounts : c'.counts = c.counts := funext (counts_congr hb hr)
  rw [accessAfter, hcounts, accessAfter]

/-! ## Places in a unit -/

namespace Forest

theorem nodes_eq (forest : Forest) : forest.nodes = forest.toList.flatMap fun tree => tree :: tree.2.nodes := by
  induction forest with
  | nil => rfl
  | cons decl children rest _ ih => rw [nodes, toList, List.flatMap_cons, ih, List.cons_append]

theorem mem_nodes_of_mem_toList {forest : Forest} {tree : Decl × Forest} (h : tree ∈ forest.toList) :
    tree ∈ forest.nodes := by
  rw [nodes_eq]
  exact List.mem_flatMap.mpr ⟨tree, h, List.mem_cons_self ..⟩

theorem enclosed_iff {forest : Forest} {parent : Site} :
    forest.Enclosed parent ↔
      ∀ tree ∈ forest.toList, tree.1.site.outer = parent.chain ∧ tree.2.Enclosed tree.1.site := by
  induction forest with
  | nil => simp [Enclosed, toList]
  | cons decl children rest _ ih => rw [Enclosed, toList, List.forall_mem_cons, ih, and_assoc]

end Forest

namespace SourceUnit

/-- All declarations of a unit, the node of the whole file first, with the forests below them. -/
def trees (unit : SourceUnit) : List (Decl × Forest) := (unit.root, unit.forest) :: unit.forest.nodes

/-- After some trees below a node there is this forest. -/
def Ahead (unit : SourceUnit) (parent : Decl) (older : List (Decl × Forest)) (forest : Forest) : Prop :=
  ∃ whole, (parent, whole) ∈ unit.trees ∧ whole.toList = older ++ forest.toList

namespace Ahead

variable {unit : SourceUnit} {parent decl : Decl} {older : List (Decl × Forest)} {forest children rest : Forest}

theorem start (unit : SourceUnit) : unit.Ahead unit.root [] unit.forest :=
  ⟨unit.forest, List.mem_cons_self .., rfl⟩

theorem nodes (h : unit.Ahead parent older forest) (henc : unit.forest.Enclosed unit.root.site) :
    ∀ node ∈ forest.nodes, node ∈ unit.forest.nodes := by
  obtain ⟨whole, htree, hlist⟩ := h
  intro node hm
  have hwhole : node ∈ whole.nodes := by
    rw [Forest.nodes_eq, hlist, List.flatMap_append, ← Forest.nodes_eq]
    exact List.mem_append_right _ hm
  rcases List.mem_cons.mp htree with hroot | htree
  · cases hroot
    exact hwhole
  · exact (henc.below htree).2 node hwhole

theorem below (h : unit.Ahead parent older (.cons decl children rest)) (henc : unit.forest.Enclosed unit.root.site) :
    unit.Ahead decl [] children :=
  ⟨children, List.mem_cons_of_mem _ (h.nodes henc _ (List.mem_cons_self ..)), rfl⟩

theorem after (h : unit.Ahead parent older (.cons decl children rest)) :
    unit.Ahead parent (older ++ [(decl, children)]) rest := by
  obtain ⟨whole, htree, hlist⟩ := h
  exact ⟨whole, htree, by rw [hlist, Forest.toList, List.append_assoc, List.singleton_append]⟩

theorem enclosed (h : unit.Ahead parent older forest) (henc : unit.forest.Enclosed unit.root.site) :
    forest.Enclosed parent.site := by
  obtain ⟨whole, htree, hlist⟩ := h
  have hwhole : whole.Enclosed parent.site := by
    rcases List.mem_cons.mp htree with hroot | htree
    · cases hroot
      exact henc
    · exact (henc.below htree).1
  rw [Forest.enclosed_iff] at hwhole ⊢
  intro tree hm
  exact hwhole tree (hlist ▸ List.mem_append_right _ hm)

theorem lies {units : List SourceUnit} (wf : WellFormed units) (hu : unit ∈ units)
    (h : unit.Ahead parent older forest) : forest.Lies (SitesOf units) parent.site := by
  have henc := wf.enclosed unit hu
  refine ⟨?_, fun node hm => (wf.lies hu).sites node (h.nodes henc node hm), h.enclosed henc⟩
  obtain ⟨whole, htree, -⟩ := h
  rcases List.mem_cons.mp htree with hroot | htree
  · cases hroot
    exact (wf.lies hu).around
  · exact (wf.lies hu).sites _ htree

theorem node (h : unit.Ahead parent older forest) (hroot : unit.root.kind = .sourceUnit)
    (hk : parent.kind.isClass = true) :
    ∃ siblings, (parent, siblings) ∈ unit.forest.nodes ∧ siblings.toList = older ++ forest.toList := by
  obtain ⟨whole, htree, hlist⟩ := h
  rcases List.mem_cons.mp htree with htop | htree
  · cases htop
    simp [hroot, NodeKind.isClass] at hk
  · exact ⟨whole, htree, hlist⟩

theorem without {units : List SourceUnit} (wf : WellFormed units) (placed : NamespacesPlaced units)
    (files : FilesAtRoots units) (hu : unit ∈ units) (h : unit.Ahead parent older forest) {fullName : String}
    (hp : parent.site.Declares fullName) : forest.Without fullName := by
  obtain ⟨whole, htree, hlist⟩ := h.node (wf.rooted unit hu).1 hp.1
  intro node hm
  apply wf.unnested placed files hu fullName (parent, whole) htree hp node
  rw [Forest.nodes_eq, hlist, List.flatMap_append, ← Forest.nodes_eq]
  exact List.mem_append_right _ hm

end Ahead

end SourceUnit

/-! ## Along a walk -/

/-- A walk among the children of a declaration, with some of them behind it. -/
structure Underway (units : List SourceUnit) (unit : SourceUnit) (parent : Decl) (older : List (Decl × Forest))
    (forest : Forest) (c : Collector) : Prop where
  ahead : unit.Ahead parent older forest
  named : Named (SitesOf units) c.db
  entered : Entered c.db parent.site.chain
  access : ∀ fullName, parent.site.Declares fullName →
    ∃ g, c.db.digest? fullName = some g ∧ g.access = c.accessAfter parent (older.map Prod.fst)

def Moment.Underway (units : List SourceUnit) (m : Moment) : Prop :=
  ∃ unit ∈ units, ∃ older children rest,
    SymbolIndex.Underway units unit m.parent older (.cons m.decl children rest) m.before

theorem Walks.of_watching {forest : Forest} {parent : Decl} {c c' : Collector} {ms ms' : List Moment} {finished : Bool}
    (h : forest.walk Collector.watching parent (c, ms) = ((c', ms'), .ok finished)) :
    ∃ calls, Walks forest parent c calls c' := by
  obtain ⟨hend, hanswer⟩ := Collector.watching_step forest parent c ms []
  rw [h] at hend hanswer
  exact (of_walk (Prod.ext (Prod.ext hend.symm rfl) hanswer.symm)).2

namespace Underway

variable {units : List SourceUnit} {unit : SourceUnit} {parent decl : Decl} {older : List (Decl × Forest)}
  {forest children rest : Forest} {c c₁ : Collector}

theorem start (wf : WellFormed units) (hu : unit ∈ units) (hn : Named (SitesOf units) c.db) :
    Underway units unit unit.root [] unit.forest c.closeTemplates where
  ahead := .start unit
  named := hn
  entered := wf.entered_root hu c.db
  access := by
    rintro fullName ⟨hk, -⟩
    have hfile : unit.root.site.kind = .sourceUnit := (wf.rooted unit hu).1
    simp [hfile, NodeKind.isClass] at hk

section
variable (wf : WellFormed units) (hu : unit ∈ units)
  (h : Underway units unit parent older (.cons decl children rest) c) {o : Outcome}
  (visit : c.visit decl parent.site = o)
include wf hu h

theorem situated : Situated (SitesOf units) c decl parent.site :=
  (h.ahead.lies wf hu).situated wf.terrain h.named h.entered

theorem access_of_classAt? (unique : c.db.UniqueClasses) {owner : ClassEntry}
    (known : c.db.classAt? parent.place = some owner) :
    owner.access = c.accessAfter parent (older.map Prod.fst) := by
  obtain ⟨g, hg, haccess⟩ := h.access owner.fullName ((h.situated wf hu).declares_of_classAt? known)
  rw [Database.digest?, unique.findClass? (List.mem_of_find?_eq_some known)] at hg
  rw [← haccess, ← Option.some.inj hg]
  rfl

include visit

theorem below (answer : o.answer = .ok .enter) : Underway units unit decl [] children o.collector := by
  have hsit := h.situated wf hu
  obtain ⟨hnamed, -, hentered⟩ := hsit.kept visit
  refine ⟨h.ahead.below (wf.enclosed unit hu), hnamed, hentered answer, ?_⟩
  intro fullName hd
  rcases hsit.digest_declared hd visit answer with ⟨-, -, hfresh⟩ | ⟨hbad, -⟩
  · exact ⟨_, hfresh, rfl⟩
  · cases hbad

variable (placed : NamespacesPlaced units) (files : FilesAtRoots units)
include placed files

theorem after {d : Directive} (answer : o.answer = .ok d) :
    Underway units unit parent (older ++ [(decl, children)]) rest o.collector := by
  have hsit := h.situated wf hu
  obtain ⟨hnamed, hmono, -⟩ := hsit.kept visit
  refine ⟨h.ahead.after, hnamed, hmono _ h.entered, ?_⟩
  intro fullName hp
  obtain ⟨g, hg, haccess⟩ := h.access fullName hp
  obtain ⟨g', hg', hgrown⟩ :=
    hsit.digest_child (h.ahead.without wf placed files hu hp).head hp visit answer hg
  refine ⟨g', hg', ?_⟩
  have hpaths := c.visit_paths decl parent.site
  rw [visit] at hpaths
  rw [List.map_append, List.map_singleton, Collector.accessAfter_concat, Collector.accessAfter_congr hpaths.1 hpaths.2,
    Collector.counts_congr hpaths.1 hpaths.2, ← haccess]
  cases hcounted : c.counts decl with
  | false =>
    have hsame : g' = g := by simpa [show c.includes (c.fileOf decl) = false from hcounted] using hgrown
    simp [hsame]
  | true =>
    have hgrows : g.Grown decl g' := by simpa [show c.includes (c.fileOf decl) = true from hcounted] using hgrown
    simp [hgrows.access]

theorem past (answer : o.answer = .ok .enter) {calls : List WalkCall}
    (inner : Walks children decl o.collector calls c₁) :
    Underway units unit parent (older ++ [(decl, children)]) rest c₁ := by
  have hafter := h.after wf hu visit placed files answer
  have hbelow := h.below wf hu visit answer
  have hlies := hbelow.ahead.lies wf hu
  obtain ⟨hnamed, hmono⟩ := inner.kept wf.terrain hlies hbelow.named hbelow.entered
  refine ⟨hafter.ahead, hnamed, hmono _ hafter.entered, ?_⟩
  intro fullName hp
  obtain ⟨g, hg, haccess⟩ := hafter.access fullName hp
  have hwithout := h.ahead.without wf placed files hu hp
  rw [← inner.frame wf.terrain hlies hbelow.named hbelow.entered hwithout.head hwithout.below] at hg
  exact ⟨g, hg, by rw [haccess, Collector.accessAfter_congr inner.paths.1 inner.paths.2]⟩

end

theorem walk (wf : WellFormed units) (hu : unit ∈ units) (placed : NamespacesPlaced units)
    (files : FilesAtRoots units) :
    ∀ {forest : Forest} {parent : Decl} {older : List (Decl × Forest)} {s : Collector × List Moment},
      Underway units unit parent older forest s.1 → (∀ m ∈ s.2, m.Underway units) →
        ∀ m ∈ (forest.walk Collector.watching parent s).1.2, m.Underway units
  | .nil, _, _, _, _, hms => hms
  | .cons decl children rest, parent, older, (c, ms), h, hms => by
    have hhere : ∀ m ∈ ms ++ [⟨c, decl, parent⟩], Moment.Underway units m := by
      intro m hm
      rcases List.mem_append.mp hm with hm | hm
      · exact hms m hm
      · rw [List.mem_singleton.mp hm]
        exact ⟨unit, hu, older, children, rest, h⟩
    simp only [Forest.walk, Collector.watching]
    generalize hv : c.visit decl parent.site = o
    cases ha : o.answer with
    | error e => exact hhere
    | ok d =>
      cases d with
      | stop => exact hhere
      | pass => exact walk wf hu placed files (h.after wf hu hv placed files ha) hhere
      | enter =>
        have hinner := walk wf hu placed files (s := (o.collector, ms ++ [⟨c, decl, parent⟩]))
          (h.below wf hu hv ha) hhere
        simp only
        generalize hw : children.walk Collector.watching decl (o.collector, ms ++ [⟨c, decl, parent⟩]) = below
          at hinner
        obtain ⟨s₁, answer⟩ := below
        cases answer with
        | error e => exact hinner
        | ok finished =>
          cases finished with
          | false => exact hinner
          | true =>
            obtain ⟨calls, hwalks⟩ := Walks.of_watching hw
            exact walk wf hu placed files (h.past wf hu hv placed files ha hwalks) hinner

end Underway

theorem Collector.history_settings {c : Collector} (h : c.db.UniqueClasses) {units : List SourceUnit} :
    ∀ m ∈ c.history units, m.before.base = c.base ∧ m.before.roots = c.roots ∧ m.before.db.UniqueClasses := by
  have hall : ∀ u ∈ units, u ∈ units := fun _ hu => hu
  refine (history_invariant
    (P := fun c' => c'.base = c.base ∧ c'.roots = c.roots ∧ c'.db.UniqueClasses)
    (fun _ hP => hP) ?_ hall ⟨rfl, rfl, h⟩).2
  rintro c' decl parent - ⟨hb, hr, hunique⟩
  obtain ⟨hb', hr'⟩ := c'.visit_paths decl parent
  exact ⟨hb'.trans hb, hr'.trans hr, hunique.visit c' decl parent⟩

theorem WellFormed.underway {units : List SourceUnit} (wf : WellFormed units) (placed : NamespacesPlaced units)
    (files : FilesAtRoots units) : ∀ {us : List SourceUnit} {c : Collector}, (∀ u ∈ us, u ∈ units) →
      Named (SitesOf units) c.db → ∀ m ∈ c.history us, m.Underway units
  | [], _, _, _, m, hm => by simp [Collector.history] at hm
  | unit :: us, c, hsub, hn, m, hm => by
    have hu := hsub unit (List.mem_cons_self ..)
    rcases List.mem_append.mp hm with hm | hm
    · exact (Underway.start wf hu hn).walk wf hu placed files (s := (c.closeTemplates, [])) (by simp) m hm
    · have hn' : Named (SitesOf units) (c.collectAll [unit]).db :=
        (wf.collectAll_keeps (P := fun _ => True) (fun _ h => h) (by simpa using hu) hn trivial).1
      exact wf.underway placed files (fun v hv => hsub v (List.mem_cons_of_mem _ hv)) hn' m hm

/-! ## A class declared inside itself

Where a namespace stands in no scope of its own tree, or a second node of a whole file is in between, a
class can be declared inside itself, and the declaration inside changes the access. -/

namespace Reopened

def outer : Decl := (Decl.wholeFile 0).within 1 .namespaceDecl "N"
def whole : Decl := outer.within 2 .classDecl "S"
def tagged : Decl := whole.within 3 .unionDecl "u"
def linkage : Decl := tagged.within 4 .linkageSpec ""
def subfile : Decl := whole.within 4 .sourceUnit ""

-- `namespace N { struct S; }`, inside some declaration
def again (around : Decl) : Forest :=
  let inner := around.within 5 .namespaceDecl "N"
  .ofList [(inner, .ofList [(inner.within 6 .structDecl "S", .nil)])]

def belowUnion : Decl × Forest := (tagged, .ofList [(linkage, again linkage)])
def belowFile : Decl × Forest := (subfile, again subfile)

-- `namespace N { class S { … }; }` with two trees in the class
def unitWith (tree last : Decl × Forest) : SourceUnit where
  root := .wholeFile 0
  forest := .ofList [(outer, .ofList [(whole, .ofList [tree, last])])]

def walked (tree last : Decl × Forest) : Collector := (Collector.start "/" [] {}).collectAll [unitWith tree last]

structure Private (tree last : Decl × Forest) : Prop where
  wf : WellFormed [unitWith tree last]
  direct : NamespacesDirect [unitWith tree last]
  node : (whole, .ofList [tree, last]) ∈ (unitWith tree last).forest.nodes
  access : (walked tree last).accessAfter whole [tree.1] = .owner

end Reopened

end SymbolIndex
