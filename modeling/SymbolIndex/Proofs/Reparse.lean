import SymbolIndex.Proofs.Repetition
import SymbolIndex.Proofs.Run

/-!
# Walking a file once more

A file that is parsed again gives the same tree of new places. The walk over it goes in step with the
first one, except that it stays outside what has its members already, and at the end nothing has
changed. Empty classes are the delicate part: both walks start them afresh, so their origin is the same
only as long as both meet the same declarations of them in the same order.
-/

namespace SymbolIndex

/-! ## What the second walk does not reach -/

/-- Something along a chain is not gone below again. -/
def Database.covers (b : Database) : List Place → Bool
  | [] => false
  | place :: outer => b.shutsAt place.kind (place :: outer) || b.covers outer

theorem Database.covers_chain (b : Database) (decl : Decl) :
    b.covers decl.site.chain = (b.shuts decl || b.covers decl.site.outer) := rfl

theorem Forest.Enclosed.covers {b : Database} {node : Decl × Forest} : ∀ {forest : Forest} {parent : Site},
    forest.Enclosed parent → b.covers parent.chain = true → node ∈ forest.nodes →
      b.covers node.1.site.outer = true
  | nil, _, _, _, hm => by simp [nodes] at hm
  | cons decl children rest, parent, h, hc, hm => by
    obtain ⟨hd, hbelow, hafter⟩ := h
    simp only [nodes, List.mem_cons, List.mem_append] at hm
    rcases hm with rfl | hm | hm
    · rw [hd, hc]
    · apply hbelow.covers _ hm
      rw [b.covers_chain, hd, hc, Bool.or_true]
    · exact hafter.covers hc hm

/-! ## The events of a walk -/

structure Event where
  before : Collector
  decl : Decl
  parent : Decl

def Forest.events : Forest → Decl → Collector → List Event
  | nil, _, _ => []
  | cons decl children rest, parent, c =>
    ⟨c, decl, parent⟩ ::
      match (c.visit decl parent.site).answer with
      | .ok .enter =>
        match children.walk Collector.step decl ((c.visit decl parent.site).collector, []) with
        | ((c₁, _), .ok true) => children.events decl (c.visit decl parent.site).collector ++ rest.events parent c₁
        | _ => children.events decl (c.visit decl parent.site).collector
      | .ok .pass => rest.events parent (c.visit decl parent.site).collector
      | _ => []

section
variable {decl parent : Decl} {children rest : Forest} {c c₁ : Collector} {o : Outcome} {calls : List WalkCall}

theorem Forest.events_pass (hv : c.visit decl parent.site = o) (ha : o.answer = .ok .pass) :
    (cons decl children rest).events parent c = ⟨c, decl, parent⟩ :: rest.events parent o.collector := by
  simp only [events, hv, ha]

theorem Forest.events_enter (hv : c.visit decl parent.site = o) (ha : o.answer = .ok .enter)
    (inner : Walks children decl o.collector calls c₁) :
    (cons decl children rest).events parent c =
      ⟨c, decl, parent⟩ :: (children.events decl o.collector ++ rest.events parent c₁) := by
  obtain ⟨notes, hw⟩ := inner.walk_eq []
  simp only [events, hv, ha, hw]

end

/-! ## States with written names -/

/-- Registered scopes have their written names, each class has one record, and the scopes of a chain are
registered. -/
structure Collector.Stands (U : Site → Prop) (c : Collector) (chain : List Place) : Prop where
  named : Named U c.db
  unique : c.db.UniqueClasses
  entered : Entered c.db chain

namespace Collector.Stands

variable {U : Site → Prop} {c : Collector} {decl : Decl} {parent : Site} {o : Outcome}

theorem after (h : c.Stands U parent.chain) (hs : Situated U c decl parent) (ho : c.visit decl parent = o) :
    o.collector.Stands U parent.chain := by
  obtain ⟨hn, hm, -⟩ := hs.kept ho
  exact ⟨hn, ho ▸ h.unique.visit c decl parent, hm _ h.entered⟩

theorem below (h : c.Stands U parent.chain) (hs : Situated U c decl parent) (ho : c.visit decl parent = o)
    (ha : o.answer = .ok .enter) : o.collector.Stands U decl.site.chain := by
  obtain ⟨hn, -, hb⟩ := hs.kept ho
  exact ⟨hn, ho ▸ h.unique.visit c decl parent, hb ha⟩

theorem walk {forest : Forest} {around : Decl} {c' : Collector} {calls : List WalkCall} (hU : Terrain U)
    (h : c.Stands U around.site.chain) (hw : Walks forest around c calls c') (hl : forest.Lies U around.site)
    {chain : List Place} (he : Entered c.db chain) : c'.Stands U chain := by
  obtain ⟨hn, hm⟩ := hw.kept hU hl h.named h.entered
  exact ⟨hn, hw.invariant Database.UniqueClasses.visit h.unique, hm _ he⟩

end Collector.Stands

/-! ## Two walks in step -/

/-- A declaration of the class stands where the second walk comes. -/
def Database.Bare (b : Database) (t : SourceUnit) (fullName : String) : Prop :=
  ∃ d ∈ t.decls, d.site.Declares fullName ∧ b.covers d.site.outer = false

/-- Both walks have come to the same declarations of a class that stays empty. -/
structure Locked (b : Database) (t : SourceUnit) (a s : Collector) (fullName : String) : Prop where
  empty : b.isFull fullName = false
  bare : b.Bare t fullName
  same : s.db.digest? fullName = a.db.digest? fullName

/-- The state of a second walk over against that of the first one, where `b` is what the first one came
to in the end. -/
structure Echo (b : Database) (t : SourceUnit) (a s : Collector) : Prop where
  base : s.base = a.base
  roots : s.roots = a.roots
  openClass : s.openClass = none
  openFunction : s.openFunction = none
  rests : b.Rests s.db
  digests : ∀ fullName, s.db.digest? fullName = b.digest? fullName ∨ Locked b t a s fullName

section
variable {U : Site → Prop} {b : Database} {t : SourceUnit} {a s : Collector} {decl decl' : Decl}
  {parent parent' : Site} {o o' : Outcome} {d d' : Directive} {fullName : String}
  (h : Abreast U a s decl decl' parent parent') (ho : a.visit decl parent = o) (hok : o.answer = .ok d)
  (ho' : s.visit decl' parent' = o') (hok' : o'.answer = .ok d')
  (hdir : b.shuts decl = false → decl.kind.isReference = false → d' = d)
include h ho hok ho' hok' hdir

theorem Abreast.locked_declared (hd : decl.site.Declares fullName) (hempty : b.isFull fullName = false)
    (hbare : b.Bare t fullName) : d' = d ∧ (d = .enter → Locked b t o.collector o'.collector fullName) ∧
      (Locked b t a s fullName → Locked b t o.collector o'.collector fullName) := by
  have hk : decl.kind.isClass = true := hd.1
  have href : decl.kind.isReference = false := by
    cases hkind : decl.kind <;> simp_all [NodeKind.isClass, NodeKind.isReference]
  obtain rfl := hdir (by rw [b.shuts_of_declares hd, hempty]) href
  refine ⟨rfl, ?_⟩
  have hfirst := h.first.digest_declared hd ho hok
  have hsecond := h.second.digest_declared ((h.declares_iff fullName).mpr hd) ho' hok'
  rw [h.fresh] at hsecond
  rcases hfirst with ⟨rfl, -, hnew⟩ | ⟨rfl, hold⟩
  · rcases hsecond with ⟨-, -, hnew'⟩ | ⟨hpass, -⟩
    · have hlocked : Locked b t o.collector o'.collector fullName := ⟨hempty, hbare, by rw [hnew', hnew]⟩
      exact ⟨fun _ => hlocked, fun _ => hlocked⟩
    · cases hpass
  · rcases hsecond with ⟨henter, -⟩ | ⟨-, hold'⟩
    · cases henter
    · refine ⟨?_, ?_⟩
      · intro henter
        cases henter
      · intro hl
        exact ⟨hempty, hbare, by rw [hold', hold, hl.same]⟩

theorem Locked.step (hg : o.collector.db.Grows b) (hl : Locked b t a s fullName) :
    Locked b t o.collector o'.collector fullName := by
  by_cases hd : decl.site.Declares fullName
  · exact (h.locked_declared ho hok ho' hok' hdir hd hl.empty hl.bare).2.2 hl
  have hd' : ¬ decl'.site.Declares fullName := fun hn => hd ((h.declares_iff fullName).mp hn)
  by_cases hp : parent.Declares fullName
  · have hp' := (h.parent_declares_iff fullName).mpr hp
    obtain ⟨g, hdigest⟩ := h.first.digest?_of_declares hp
    obtain ⟨g₁, hg₁, hgrown⟩ := h.first.digest_child hd hp ho hok hdigest
    obtain ⟨g₂, hg₂, hgrown'⟩ := h.second.digest_child hd' hp' ho' hok' (hl.same.trans hdigest)
    have hcounts : s.includes (s.fileOf decl') = a.includes (a.fileOf decl) := h.counts
    rw [hcounts] at hgrown'
    refine ⟨hl.empty, hl.bare, ?_⟩
    rw [hg₁, hg₂]
    by_cases hi : a.includes (a.fileOf decl) = true
    · rw [if_pos hi] at hgrown hgrown'
      -- a child that fills the class would have left it full
      have hfills : decl.kind.fills = false := by
        by_contra hf
        rw [Bool.not_eq_false] at hf
        have hfull : o.collector.db.isFull fullName = true := by
          rw [Database.isFull, hg₁, Option.any_some, hgrown.isEmpty_eq_false hf]
          rfl
        have hempty := hl.empty
        rw [hg.full _ hfull] at hempty
        cases hempty
      have haccess : decl'.access = decl.access := by
        have := congrArg Decl.access h.same
        exact this
      rw [hgrown.eq_of_fills hfills, hgrown'.eq_of_fills (by rw [h.kind, hfills]), h.kind, haccess]
    · rw [if_neg hi] at hgrown hgrown'
      rw [hgrown, hgrown']
  · have hp' : ¬ parent'.Declares fullName := fun hn => hp ((h.parent_declares_iff fullName).mp hn)
    refine ⟨hl.empty, hl.bare, ?_⟩
    rw [h.first.digest_frame hd hp ho, h.second.digest_frame hd' hp' ho', hl.same]

theorem Echo.step (hg : o.collector.db.Grows b) (he : Echo b t a s) (hin : decl ∈ t.decls)
    (hcover : b.covers decl.site.outer = false) (hp : ∀ fullName, parent.Declares fullName → Locked b t a s fullName)
    (hshut : b.shuts decl = true → d' = .pass) (hrest : o'.RestsAt b s d') : Echo b t o.collector o'.collector := by
  have hpaths := a.visit_paths decl parent
  rw [ho] at hpaths
  have hdigests : ∀ fullName, o'.collector.db.digest? fullName = b.digest? fullName ∨
      Locked b t o.collector o'.collector fullName := by
    intro fullName
    rcases he.digests fullName with hsame | hl
    · by_cases hd : decl.site.Declares fullName
      · rcases h.second.digest_declared ((h.declares_iff fullName).mpr hd) ho' hok' with ⟨rfl, -⟩ | ⟨-, hold⟩
        · -- entered, so it is empty and the first walk entered it too
          right
          have hempty : b.isFull fullName = false := by
            by_contra hf
            rw [Bool.not_eq_false, ← b.shuts_of_declares hd] at hf
            cases hshut hf
          obtain ⟨rfl, hlocked, -⟩ := h.locked_declared ho hok ho' hok' hdir hd hempty ⟨decl, hin, hd, hcover⟩
          exact hlocked rfl
        · left
          rw [hold, hsame]
      · by_cases hparent : parent.Declares fullName
        · exact Or.inr (Locked.step h ho hok ho' hok' hdir hg (hp fullName hparent))
        · left
          rw [h.second.digest_frame (fun hn => hd ((h.declares_iff fullName).mp hn))
            (fun hn => hparent ((h.parent_declares_iff fullName).mp hn)) ho', hsame]
    · exact Or.inr (Locked.step h ho hok ho' hok' hdir hg hl)
  obtain ⟨db, notes, rfl, hdb⟩ := hrest
  exact ⟨he.base.trans hpaths.1.symm, he.roots.trans hpaths.2.symm, he.openClass, he.openFunction, hdb, hdigests⟩

end

/-! ## Two forests of one shape -/

/-- Two parses of a forest, the second one at places that no enum is known by. -/
structure Twins (U : Site → Prop) (b : Database) (t : SourceUnit) (forest forest' : Forest) (parent parent' : Decl) :
    Prop where
  first : forest.Lies U parent.site
  second : forest'.Lies U parent'.site
  same : forest'.erase = forest.erase
  around : parent'.site.erase = parent.site.erase
  within : ∀ node ∈ forest.nodes, node.1 ∈ t.decls
  references : ∀ node ∈ forest.nodes, node.1.kind.isReference = true → node.2 = .nil
  uncovered : b.covers parent.site.chain = false
  fresh : ∀ e ∈ b.enums, e.declaredAt parent'.place = false
  freshBelow : ∀ e ∈ b.enums, ∀ node ∈ forest'.nodes, e.declaredAt node.1.place = false

namespace Twins

variable {U : Site → Prop} {b : Database} {t : SourceUnit} {decl decl' parent parent' : Decl}
  {children children' rest rest' : Forest} {a s : Collector} {o : Outcome} {d : Directive}

theorem head (h : Twins U b t (.cons decl children rest) (.cons decl' children' rest') parent parent') :
    decl'.erase = decl.erase ∧ children'.erase = children.erase ∧ rest'.erase = rest.erase := by
  have := h.same
  simp only [Forest.erase, Forest.cons.injEq] at this
  exact this

theorem after (h : Twins U b t (.cons decl children rest) (.cons decl' children' rest') parent parent') :
    Twins U b t rest rest' parent parent' where
  first := h.first.after
  second := h.second.after
  same := h.head.2.2
  around := h.around
  within := fun node hm => h.within node (List.mem_cons_of_mem _ (List.mem_append_right _ hm))
  references := fun node hm => h.references node (List.mem_cons_of_mem _ (List.mem_append_right _ hm))
  uncovered := h.uncovered
  fresh := h.fresh
  freshBelow := fun e he node hm => h.freshBelow e he node (List.mem_cons_of_mem _ (List.mem_append_right _ hm))

theorem below (h : Twins U b t (.cons decl children rest) (.cons decl' children' rest') parent parent')
    (hshut : b.shuts decl = false) : Twins U b t children children' decl decl' where
  first := h.first.below
  second := h.second.below
  same := h.head.2.1
  around := congrArg Decl.site h.head.1
  within := fun node hm => h.within node (List.mem_cons_of_mem _ (List.mem_append_left _ hm))
  references := fun node hm => h.references node (List.mem_cons_of_mem _ (List.mem_append_left _ hm))
  uncovered := by
    rw [b.covers_chain, hshut, h.first.head.2, h.uncovered]
    rfl
  fresh := fun e he => h.freshBelow e he (decl', children') (List.mem_cons_self ..)
  freshBelow := fun e he node hm => h.freshBelow e he node (List.mem_cons_of_mem _ (List.mem_append_left _ hm))

theorem children_nil (h : Twins U b t (.cons decl children rest) (.cons decl' children' rest') parent parent')
    (href : decl.kind.isReference = true) : children = .nil ∧ children' = .nil := by
  have hnil : children = .nil := h.references (decl, children) (List.mem_cons_self ..) href
  have hsame := h.head.2.1
  rw [hnil] at hsame
  refine ⟨hnil, ?_⟩
  cases children' with
  | nil => rfl
  | cons => cases hsame

theorem abreast (h : Twins U b t (.cons decl children rest) (.cons decl' children' rest') parent parent')
    (hU : Terrain U) (ha : a.Stands U parent.site.chain) (hs : s.Stands U parent'.site.chain) (he : Echo b t a s) :
    Abreast U a s decl decl' parent.site parent'.site :=
  ⟨h.first.situated hU ha.named ha.entered, h.second.situated hU hs.named hs.entered, h.head.1, h.around, he.base,
    he.roots⟩

structure Answers (b : Database) (t : SourceUnit) (a s : Collector) (decl : Decl) (o o' : Outcome) (d d' : Directive) :
    Prop where
  ok : o'.answer = .ok d'
  shut : b.shuts decl = true → d' = .pass
  unshut : b.shuts decl = false → decl.kind.isReference = false → d' = d
  echo : Echo b t o.collector o'.collector
  locked : ∀ fullName, Locked b t a s fullName → Locked b t o.collector o'.collector fullName
  entered : d = .enter → b.shuts decl = false →
    ∀ fullName, decl.site.Declares fullName → Locked b t o.collector o'.collector fullName

theorem event (h : Twins U b t (.cons decl children rest) (.cons decl' children' rest') parent parent')
    (hU : Terrain U) (ha : a.Stands U parent.site.chain) (hs : s.Stands U parent'.site.chain) (he : Echo b t a s)
    (hp : ∀ fullName, parent.site.Declares fullName → Locked b t a s fullName)
    (hset : Settled b a decl parent.site) (ho : a.visit decl parent.site = o) (hok : o.answer = .ok d)
    (hg : o.collector.db.Grows b) : ∃ d', Answers b t a s decl o (s.visit decl' parent'.site) d d' := by
  have habreast := h.abreast hU ha hs he
  have hin := h.within (decl, children) (List.mem_cons_self ..)
  have hcover : b.covers decl.site.outer = false := by rw [h.first.head.2, h.uncovered]
  subst ho
  obtain ⟨d', hrest, hshut, hdir⟩ := habreast.visit_rests he.openClass he.openFunction he.rests ha.unique hs.unique hset
    (fun name hd => ⟨(hp name hd).empty, (hp name hd).same⟩) h.fresh hok hg
  have hok' : (s.visit decl' parent'.site).answer = .ok d' := by
    obtain ⟨db, notes, hans, -⟩ := hrest
    rw [hans]
    rfl
  refine ⟨d', hok', hshut, hdir, ?_, ?_, ?_⟩
  · exact Echo.step habreast rfl hok rfl hok' hdir hg he hin hcover hp hshut hrest
  · intro fullName hl
    exact Locked.step habreast rfl hok rfl hok' hdir hg hl
  · intro henter hopen fullName hd
    have hempty : b.isFull fullName = false := by rw [← b.shuts_of_declares hd, hopen]
    exact (habreast.locked_declared rfl hok rfl hok' hdir hd hempty ⟨decl, hin, hd, hcover⟩).2.1 henter

theorem skips (h : Twins U b t (.cons decl children rest) (.cons decl' children' rest') parent parent')
    {o' : Outcome} {d' : Directive} (hans : Answers b t a s decl o o' d d')
    (hskip : d = .pass ∨ b.shuts decl = true ∨ decl.kind.isReference = true) : d' = .pass ∨ children' = .nil := by
  by_cases href : decl.kind.isReference = true
  · exact Or.inr (h.children_nil href).2
  · left
    by_cases hshut : b.shuts decl = true
    · exact hans.shut hshut
    · rw [hans.unshut (by simpa using hshut) (by simpa using href)]
      simpa [hshut, href] using hskip

end Twins

/-! ## In step through a whole forest -/

/-- A class that stays empty is declared inside what is not gone below again, or outside, not both. -/
def Undivided (b : Database) (t : SourceUnit) : Prop :=
  ∀ d ∈ t.decls, ∀ e ∈ t.decls, ∀ fullName, d.site.Declares fullName → e.site.Declares fullName →
    b.isFull fullName = false → b.covers d.site.outer = b.covers e.site.outer

section
variable {U : Site → Prop} (hU : Terrain U) {b : Database} {t : SourceUnit} {a a₁ s : Collector} {decl : Decl}
  {children : Forest} {calls : List WalkCall}

theorem Echo.aside (he : Echo b t a s) (inner : Walks children decl a calls a₁)
    (hframe : ∀ fullName, Locked b t a s fullName → Locked b t a₁ s fullName) : Echo b t a₁ s := by
  obtain ⟨hbase, hroots⟩ := inner.paths
  refine ⟨he.base.trans hbase.symm, he.roots.trans hroots.symm, he.openClass, he.openFunction, he.rests, ?_⟩
  intro fullName
  rcases he.digests fullName with hsame | hl
  · exact Or.inl hsame
  · exact Or.inr (hframe fullName hl)

include hU

theorem Locked.aside (hund : Undivided b t) (hshut : b.shuts decl = true) (inner : Walks children decl a calls a₁)
    (hlies : children.Lies U decl.site) (hstands : a.Stands U decl.site.chain)
    (hwithin : ∀ node ∈ children.nodes, node.1 ∈ t.decls) {fullName : String} (hl : Locked b t a s fullName) :
    Locked b t a₁ s fullName := by
  have hdecl : ¬ decl.site.Declares fullName := by
    intro hd
    have hempty := hl.empty
    rw [← b.shuts_of_declares hd, hshut] at hempty
    cases hempty
  have hwithout : children.Without fullName := by
    intro node hm hd
    obtain ⟨e, he, hde, huncovered⟩ := hl.bare
    have hcovered : b.covers node.1.site.outer = true := by
      apply hlies.enclosed.covers _ hm
      rw [b.covers_chain, hshut, Bool.true_or]
    rw [hund node.1 (hwithin node hm) e he fullName hd hde hl.empty, huncovered] at hcovered
    cases hcovered
  refine ⟨hl.empty, hl.bare, ?_⟩
  rw [inner.frame hU hlies hstands.named hstands.entered hdecl hwithout, hl.same]

theorem Twins.locked_aside {parent decl' parent' : Decl} {children' rest rest' : Forest}
    (h : Twins U b t (.cons decl children rest) (.cons decl' children' rest') parent parent') (hund : Undivided b t)
    (hskip : b.shuts decl = true ∨ decl.kind.isReference = true) (inner : Walks children decl a calls a₁)
    (hstands : a.Stands U decl.site.chain) (fullName : String) (hl : Locked b t a s fullName) :
    Locked b t a₁ s fullName := by
  rcases hskip with hshut | href
  · apply hl.aside hU hund hshut inner h.first.below hstands
    exact fun node hm => h.within node (List.mem_cons_of_mem _ (List.mem_append_left _ hm))
  · obtain ⟨rfl, -⟩ := h.children_nil href
    cases inner
    exact hl

omit hU in
theorem Walks.onward {decl' parent' : Decl} {children' rest' : Forest} {s s' : Collector} {calls' : List WalkCall}
    {d' : Directive} (hok : (s.visit decl' parent'.site).answer = .ok d') (hd : d' = .pass ∨ children' = .nil)
    (further : Walks rest' parent' (s.visit decl' parent'.site).collector calls' s') :
    ∃ calls, Walks (.cons decl' children' rest') parent' s calls s' := by
  cases d' with
  | stop => exact absurd hok (s.visit_not_stop decl' parent'.site)
  | pass => exact ⟨_, .pass rfl hok further⟩
  | enter =>
    rcases hd with hd | rfl
    · cases hd
    · exact ⟨_, .enter rfl hok .nil further⟩

theorem Walks.echo (hund : Undivided b t) {forest : Forest} {parent : Decl} {a' : Collector}
    (h : Walks forest parent a calls a') : ∀ {forest' : Forest} {parent' : Decl} {s : Collector},
      Twins U b t forest forest' parent parent' → a.Stands U parent.site.chain → s.Stands U parent'.site.chain →
      a'.db.Grows b → (∀ e ∈ forest.events parent a, Settled b e.before e.decl e.parent.site) → Echo b t a s →
      (∀ fullName, parent.site.Declares fullName → Locked b t a s fullName) →
        ∃ calls' s', Walks forest' parent' s calls' s' ∧ Echo b t a' s' ∧
          ∀ fullName, Locked b t a s fullName → Locked b t a' s' fullName := by
  induction h with
  | nil =>
    intro forest' parent' s ht _ _ _ _ he _
    cases forest' with
    | nil => exact ⟨[], s, .nil, he, fun _ hl => hl⟩
    | cons => cases ht.same
  | @pass decl parent children rest a a' o calls visit answer further ih =>
    intro forest' parent' s ht ha hs hg hset he hp
    cases forest' with
    | nil => cases ht.same
    | cons decl' children' rest' =>
    rw [Forest.events_pass visit answer] at hset
    have hsettled := hset _ (List.mem_cons_self ..)
    have habreast := ht.abreast hU ha hs he
    obtain ⟨d', hans⟩ := ht.event hU ha hs he hp hsettled visit answer (further.grows.trans hg)
    obtain ⟨calls', s', hwalk, he', hlocked⟩ := ih ht.after (ha.after habreast.first visit) (hs.after habreast.second rfl) hg
      (fun e hm => hset e (List.mem_cons_of_mem _ hm)) hans.echo (fun fullName hd => hans.locked fullName (hp fullName hd))
    obtain ⟨calls'', hwalk'⟩ := Walks.onward hans.ok (ht.skips hans (.inl rfl)) hwalk
    exact ⟨calls'', s', hwalk', he', fun fullName hl => hlocked fullName (hans.locked fullName hl)⟩
  | @enter decl parent children rest a a₁ a' o calls₁ calls₂ visit answer inner further ih₁ ih₂ =>
    intro forest' parent' s ht ha hs hg hset he hp
    cases forest' with
    | nil => cases ht.same
    | cons decl' children' rest' =>
    rw [Forest.events_enter visit answer inner] at hset
    have hsettled := hset _ (List.mem_cons_self ..)
    have habreast := ht.abreast hU ha hs he
    have hg₁ := further.grows.trans hg
    obtain ⟨d', hans⟩ := ht.event hU ha hs he hp hsettled visit answer (inner.grows.trans hg₁)
    have hafter := ha.after habreast.first visit
    have hbelow := ha.below habreast.first visit answer
    have hafter₁ := hbelow.walk hU inner ht.first.below hafter.entered
    have hset₁ : ∀ e ∈ children.events decl o.collector, Settled b e.before e.decl e.parent.site :=
      fun e hm => hset e (List.mem_cons_of_mem _ (List.mem_append_left _ hm))
    have hset₂ : ∀ e ∈ rest.events parent a₁, Settled b e.before e.decl e.parent.site :=
      fun e hm => hset e (List.mem_cons_of_mem _ (List.mem_append_right _ hm))
    by_cases hskip : b.shuts decl = true ∨ decl.kind.isReference = true
    · -- only the first walk goes below the declaration
      have haside := ht.locked_aside hU (s := (s.visit decl' parent'.site).collector) hund hskip inner hbelow
      obtain ⟨calls', s', hwalk, he', hlocked⟩ := ih₂ ht.after hafter₁ (hs.after habreast.second rfl) hg hset₂
        (hans.echo.aside inner haside) (fun fullName hd => haside fullName (hans.locked fullName (hp fullName hd)))
      obtain ⟨calls'', hwalk'⟩ := Walks.onward hans.ok (ht.skips hans (.inr hskip)) hwalk
      exact ⟨calls'', s', hwalk', he', fun fullName hl => hlocked fullName (haside fullName (hans.locked fullName hl))⟩
    · -- both walks go below it
      rw [not_or, Bool.not_eq_true, Bool.not_eq_true] at hskip
      obtain rfl := hans.unshut hskip.1 hskip.2
      have hbelow' := hs.below habreast.second rfl hans.ok
      obtain ⟨calls₁', s₁, hwalk₁, he₁, hlocked₁⟩ := ih₁ (ht.below hskip.1) hbelow hbelow' hg₁ hset₁ hans.echo
        (hans.entered rfl hskip.1)
      have hafter' := hbelow'.walk hU hwalk₁ ht.second.below (hs.after habreast.second rfl).entered
      obtain ⟨calls₂', s', hwalk₂, he', hlocked₂⟩ := ih₂ ht.after hafter₁ hafter' hg hset₂ he₁
        (fun fullName hd => hlocked₁ fullName (hans.locked fullName (hp fullName hd)))
      refine ⟨_, s', .enter rfl hans.ok hwalk₁ hwalk₂, he', ?_⟩
      exact fun fullName hl => hlocked₂ fullName (hlocked₁ fullName (hans.locked fullName hl))

end

/-! ## Places of enums -/

def Database.EnumsWithin (U : Site → Prop) (db : Database) : Prop := ∀ e ∈ db.enums, ∃ a, U a ∧ a.place = e.place

theorem Situated.enumsWithin {U : Site → Prop} {c : Collector} {decl : Decl} {parent : Site}
    (h : Situated U c decl parent) (hP : c.db.EnumsWithin U) : (c.visit decl parent).collector.db.EnumsWithin U := by
  apply Collector.visit_invariant _ _ hP
  · intro db db' ho hP
    unfold Database.EnumsWithin
    rw [Database.enums_of_outline ho]
    exact hP
  · intro c' db d _ heff hP
    cases heff with
    | opened kind named db_eq =>
      rw [db_eq]
      unfold Database.addNamespace
      split <;> exact hP
    | declared scope kind named context db_eq d entered =>
      rw [db_eq]
      unfold Database.addClass
      split <;> exact hP
    | member entry change kind known db_eq extended d =>
      rw [db_eq]
      exact hP
    | quiet beside other d leaf =>
      intro e he
      rcases beside.enums e he with ⟨-, hplace⟩ | ⟨old, hold, -, hplace⟩
      · exact ⟨decl.site, h.here, hplace.symm⟩
      · obtain ⟨a, ha, haplace⟩ := hP old hold
        exact ⟨a, ha, haplace.trans hplace⟩

/-! ## Walking once more -/

/-- A unit that can be walked once more. Over against the database `b` that a walk of it from `c` came
to: what aliases and free functions were registered as is what they would be registered as now, no
class that is still empty got a template parameter, empty classes are undivided, and nothing stands
below a reference. -/
structure Repeatable (c : Collector) (t : SourceUnit) (b : Database) : Prop where
  settled : ∀ e ∈ t.forest.events t.root c.closeTemplates, Settled b e.before e.decl e.parent.site
  undivided : Undivided b t
  references : ∀ node ∈ t.forest.nodes, node.1.kind.isReference = true → node.2 = .nil

theorem WellFormed.mono {units us : List SourceUnit} (h : WellFormed units) (hsub : ∀ u ∈ us, u ∈ units) :
    WellFormed us where
  rooted := fun u hu => h.rooted u (hsub u hu)
  enclosed := fun u hu => h.enclosed u (hsub u hu)
  distinct := fun u hu => h.distinct u (hsub u hu)
  apart := fun u hu v hv => h.apart u (hsub u hu) v (hsub v hv)

section
variable {units : List SourceUnit} {t t' : SourceUnit}

theorem WellFormed.twins (wf : WellFormed units) (ht : t ∈ units) (ht' : t' ∈ units) (hsame : t'.erase = t.erase)
    {b : Database} (href : ∀ node ∈ t.forest.nodes, node.1.kind.isReference = true → node.2 = .nil)
    (hfresh : ∀ e ∈ b.enums, ∀ d ∈ t'.decls, e.declaredAt d.place = false) :
    Twins (SitesOf units) b t t.forest t'.forest t.root t'.root where
  first := wf.lies ht
  second := wf.lies ht'
  same := congrArg SourceUnit.forest hsame
  around := congrArg (fun u => u.root.site) hsame
  within := fun node hm => List.mem_cons_of_mem _ (List.mem_map_of_mem hm)
  references := href
  uncovered := by
    obtain ⟨hk, ho⟩ := wf.rooted t ht
    rw [b.covers_chain, ho, Database.shuts, Database.shutsAt, hk]
    rfl
  fresh := fun e he => hfresh e he t'.root (List.mem_cons_self ..)
  freshBelow := fun e he node hm => hfresh e he node.1 (List.mem_cons_of_mem _ (List.mem_map_of_mem hm))

theorem WellFormed.enums_apart (wf : WellFormed (units ++ [t'])) (hnew : t' ∉ units) {b : Database}
    (hb : b.EnumsWithin (SitesOf units)) : ∀ e ∈ b.enums, ∀ d ∈ t'.decls, e.declaredAt d.place = false := by
  intro e he d hd
  obtain ⟨-, ⟨u, hu, d₀, hd₀, rfl⟩, hplace⟩ := hb e he
  have hne : t' ≠ u := by
    intro heq
    rw [heq] at hnew
    exact hnew hu
  have hapart := wf.apart t' (by simp) u (by simp [hu]) hne d hd d₀ hd₀
  rw [EnumEntry.declaredAt, ← hplace]
  exact hapart

theorem Echo.start {c c₁ : Collector} (hbase : c₁.base = c.base) (hroots : c₁.roots = c.roots) :
    Echo c₁.db t c.closeTemplates c₁.closeTemplates :=
  ⟨hbase, hroots, rfl, rfl, .refl _, fun _ => Or.inl rfl⟩

end

/-- **A second walk changes nothing.** After any run and a walk of a unit that can be repeated, a walk of
another parse of it runs through and leaves the same records, in the same order. -/
theorem second_walk_changes_nothing {base : String} {roots : List String} {units : List SourceUnit} {t t' : SourceUnit}
    (wf : WellFormed (units ++ [t] ++ [t'])) (hnew : t' ∉ units ++ [t]) (hsame : t'.erase = t.erase) {c₁ : Collector}
    {notes : List Note} {finished : Bool}
    (hwalk : ((Collector.start base roots {}).collectAll units).collect t = ((c₁, notes), .ok finished))
    (hrep : Repeatable ((Collector.start base roots {}).collectAll units) t c₁.db) :
    ∃ c₂ notes', c₁.collect t' = ((c₂, notes'), .ok true) ∧ c₁.db.SameRecords c₂.db ∧
      c₂.db.toJson = c₁.db.toJson := by
  have ht : t ∈ units ++ [t] ++ [t'] := by simp
  have ht' : t' ∈ units ++ [t] ++ [t'] := by simp
  -- the first walk
  have hsub : ∀ u ∈ units, u ∈ units ++ [t] ++ [t'] := fun u hu => by simp [hu]
  obtain ⟨hn, hu⟩ := wf.collectAll_keeps (P := Database.UniqueClasses) (fun _ h => h.visit ..) hsub
    (Named.empty _ base roots) List.nodup_nil
  obtain ⟨-, calls, hw⟩ := Walks.of_walk hwalk
  have hstands : ((Collector.start base roots {}).collectAll units).closeTemplates.Stands
      (SitesOf (units ++ [t] ++ [t'])) t.root.site.chain := ⟨hn, hu, wf.entered_root ht _⟩
  obtain ⟨hn₁, -⟩ := hw.kept wf.terrain (wf.lies ht) hn hstands.entered
  have hu₁ : c₁.db.UniqueClasses := hw.invariant Database.UniqueClasses.visit hu
  have hstands₁ : c₁.closeTemplates.Stands (SitesOf (units ++ [t] ++ [t'])) t'.root.site.chain :=
    ⟨hn₁, hu₁, wf.entered_root ht' _⟩
  -- enums are known by places of earlier units
  have henums : c₁.db.EnumsWithin (SitesOf (units ++ [t])) := by
    have wf₁ : WellFormed (units ++ [t]) := wf.mono fun u hu => List.mem_append_left _ hu
    have hall := (wf₁.collectAll_keeps (P := Database.EnumsWithin (SitesOf (units ++ [t]))) Situated.enumsWithin
      (fun u hu => hu) (Named.empty _ base roots) (fun e he => by cases he)).2
    rw [Collector.collectAll, List.foldl_append] at hall
    simp only [List.foldl_cons, List.foldl_nil] at hall
    rw [Collector.collectAll] at hwalk
    rw [hwalk] at hall
    exact hall
  have htwins := wf.twins ht ht' hsame hrep.references (wf.enums_apart hnew henums)
  -- the second walk, in step with the first
  obtain ⟨calls', c₂, hw', hecho, -⟩ := hw.echo wf.terrain hrep.undivided htwins hstands hstands₁ (.refl _) hrep.settled
    (Echo.start hw.paths.1 hw.paths.2) (fun fullName hd => by
      have hk : t.root.kind.isClass = true := hd.1
      rw [(wf.rooted t ht).1] at hk
      cases hk)
  obtain ⟨notes', hcollect⟩ := hw'.walk_eq []
  have hdigests : ∀ fullName, c₂.db.digest? fullName = c₁.db.digest? fullName := by
    intro fullName
    rcases hecho.digests fullName with hsame | hl
    · exact hsame
    · exact hl.same
  have hrecords := hecho.rests.sameRecords (hw'.invariant Database.UniqueClasses.visit hu₁) hu₁ hdigests
  exact ⟨c₂, notes', hcollect, hrecords, hrecords.toJson⟩

namespace Header

def outer (k : Nat) : Decl := (Decl.wholeFile k).within (k + 1) .namespaceDecl "N"

-- `namespace N { struct Tag; }`
def forward : SourceUnit :=
  ⟨.wholeFile 0, .ofList [(outer 0, .ofList [({ (outer 0).within 2 .structDecl "Tag" with file := some "/fwd.h" }, .nil)])]⟩

def box (k : Nat) : Decl := (outer k).within (k + 2) .structDecl "Box"
def tag (k : Nat) : Decl := { (outer k).within (k + 3) .structDecl "Tag" with file := some "/n.h" }
def color (k : Nat) : Decl := (outer k).within (k + 4) .enumDecl "Color"
def ref (k : Nat) : Decl :=
  { (outer k).within (k + 5) .typedefDecl "Ref" with
    underlying := .pointer {} (.named ⟨"Box", false⟩ .record (some (box k).site)) }
def use (k : Nat) : Decl :=
  { (outer k).within (k + 6) .functionDecl "f" with
    prototype := some
      { result := .builtin {} .void, arguments := [.named ⟨"Ref", false⟩ .typedef (some (ref k).site)] } }

-- `namespace N { struct Box { struct Part; void m(); }; struct Tag { int size; }; enum Color { Red };
-- typedef Box *Ref; void f(Ref); }`
def unit (k : Nat) : SourceUnit where
  root := .wholeFile k
  forest := .ofList [(outer k, .ofList [
    (box k, .ofList [((box k).within (k + 7) .structDecl "Part", .nil),
      ((box k).within (k + 8) .methodDecl "m", .nil)]),
    (tag k, .ofList [({ (tag k).within (k + 9) .fieldDecl "size" with type := .builtin {} .int }, .nil)]),
    (color k, .ofList [((color k).within (k + 10) .enumConstant "Red", .nil)]),
    (ref k, .nil), (use k, .nil)])]

def before : Collector := (Collector.start "/" [] {}).collectAll [forward]
def after : Collector := (before.collect (unit 10)).1.1

end Header

open Header in
theorem header_walked_again :
    ∃ c₂ notes, after.collect (unit 30) = ((c₂, notes), .ok true) ∧ after.db.SameRecords c₂.db ∧
      c₂.db.toJson = after.db.toJson := by
  have wf : WellFormed ([forward] ++ [unit 10] ++ [unit 30]) := by decide
  have walked : before.collect (unit 10) = ((after, (before.collect (unit 10)).1.2), .ok true) := rfl
  have settled : ∀ e ∈ (unit 10).forest.events (unit 10).root before.closeTemplates,
      Settled after.db e.before e.decl e.parent.site := by decide
  have covered : ∀ d ∈ (unit 10).decls, ∀ e ∈ (unit 10).decls,
      writtenScope d.site.chain = writtenScope e.site.chain → d.kind.isClass = true → e.kind.isClass = true →
        after.db.covers d.site.outer = after.db.covers e.site.outer := by decide
  have undivided : Undivided after.db (unit 10) := by
    intro d hd e he fullName hdecl hdecl' _
    exact covered d hd e he (hdecl.2.trans hdecl'.2.symm) hdecl.1 hdecl'.1
  exact second_walk_changes_nothing wf (by decide) rfl walked ⟨settled, undivided, by decide⟩

/-! ## What a second walk can change

The template parameters of a class without bases, constructors and methods are added once more. An alias
or a parameter whose type was declared only later is found the second time. A class that is declared in a
namespace and in a class of one name goes back to the first of them, since the class has members. What an
open template skipped below a reference is reached. A walk that failed gets further. And where two
declarations are not told apart, members go to the wrong class, which does not keep them from coming
again. -/

namespace Changed

def aliasDecl (serial k : Nat) (spelling : String) (type : TypeTree) : Decl :=
  { (Decl.wholeFile k).within (k + serial) .typedefDecl spelling with underlying := type }

def box (k : Nat) : Decl := (Decl.wholeFile k).within (k + 1) .classTemplate "Box"

-- `template <typename T> class Box { int x; };`
def template (k : Nat) : SourceUnit :=
  ⟨.wholeFile k, .ofList [(box k, .ofList [((box k).within (k + 2) .templateTypeParameter "T", .nil),
    ({ (box k).within (k + 3) .fieldDecl "x" with type := .builtin {} .int }, .nil)])]⟩

def later (k : Nat) : Decl := aliasDecl 2 k "A" (.builtin {} .int)

-- `typedef A B; typedef int A;`
def earlyAlias (k : Nat) : SourceUnit :=
  ⟨.wholeFile k, .ofList [(aliasDecl 1 k "B" (.named ⟨"A", false⟩ .typedef (some (later k).site)), .nil), (later k, .nil)]⟩

def early (k : Nat) : Decl :=
  { (Decl.wholeFile k).within (k + 1) .functionDecl "f" with
    prototype := some
      { result := .builtin {} .void, arguments := [.named ⟨"A", false⟩ .typedef (some (later k).site)] } }

-- `void f(A); typedef int A;`
def earlyFunction (k : Nat) : SourceUnit := ⟨.wholeFile k, .ofList [(early k, .nil), (later k, .nil)]⟩

def outer (k : Nat) : Decl := (Decl.wholeFile k).within (k + 1) .namespaceDecl "A"
def whole (k : Nat) : Decl := (Decl.wholeFile k).within (k + 2) .structDecl "A"
def part (serial k : Nat) (around : Decl) (path : String) : Decl :=
  { around.within (k + serial) .structDecl "B" with file := some path }

-- `namespace A { struct B; } struct A { void m(); struct B; };`
def divided (k : Nat) : SourceUnit :=
  ⟨.wholeFile k, .ofList [(outer k, .ofList [(part 3 k (outer k) "/a.h", .nil)]),
    (whole k, .ofList [((whole k).within (k + 4) .methodDecl "m", .nil), (part 5 k (whole k) "/b.h", .nil)])]⟩

def inner (k : Nat) : Decl := (whole k).within (k + 3) .structDecl "C"
def reference (k : Nat) : Decl := (whole k).within (k + 4) .typeRef "r"

-- `struct A { struct C { void m(); }; };` with an enum below a reference.
def belowReference (k : Nat) : SourceUnit :=
  ⟨.wholeFile k, .ofList [(whole k, .ofList [
    (inner k, .ofList [((inner k).within (k + 5) .methodDecl "m", .nil)]),
    (reference k, .ofList [((reference k).within (k + 6) .enumDecl "E", .nil)])])]⟩

-- `struct A { void m(); .. x; }; struct B;` where `x` has no type.
def broken (k : Nat) : SourceUnit :=
  ⟨.wholeFile k, .ofList [(whole k, .ofList [((whole k).within (k + 3) .methodDecl "m", .nil),
    ((whole k).within (k + 4) .fieldDecl "x", .nil)]), ((Decl.wholeFile k).within (k + 5) .structDecl "B", .nil)]⟩

def shared (serial k : Nat) (spelling : String) : Decl :=
  { site := ⟨⟨k + serial, some (if k = 0 then "p" else "q"), .structDecl, spelling⟩, (Decl.wholeFile k).site.chain⟩ }

-- `struct A { void m(); }; struct B { void n(); };`, with structs that are not told apart.
def merged (k : Nat) : SourceUnit :=
  ⟨.wholeFile k, .ofList [(shared 1 k "A", .ofList [((shared 1 k "A").within (k + 3) .methodDecl "m", .nil)]),
    (shared 2 k "B", .ofList [((shared 2 k "B").within (k + 4) .methodDecl "n", .nil)])]⟩

def Parses (unit : Nat → SourceUnit) : Prop :=
  (unit 10).erase = (unit 0).erase ∧ (unit 0).forest.Enclosed (unit 0).root.site ∧
    (unit 10).forest.Enclosed (unit 10).root.site ∧
    ∀ a ∈ (unit 0).decls, ∀ b ∈ (unit 10).decls, a.place.same b.place = false

instance (unit : Nat → SourceUnit) : Decidable (Parses unit) := inferInstanceAs (Decidable (_ ∧ _ ∧ _ ∧ _))

def items (name : String) : Json → List Json
  | .object members => match members.lookup name with
    | some (.list items) => items
    | _ => []
  | _ => []

def text (name : String) : Json → String
  | .object members => match members.lookup name with
    | some (.str value) => value
    | _ => ""
  | _ => ""

def seen {α : Type} (look : Json → α) (unit : Nat → SourceUnit) : α × α :=
  let first := ((Collector.start "/" [] {}).collect (unit 0)).1.1
  (look first.db.toJson, look (first.collect (unit 10)).1.1.db.toJson)

end Changed

open Changed in
theorem second_walk_changes_records :
    (Parses template ∧
      seen (fun j => (items "classes" j).map fun c => (items "template_parameters" c).map (text "name")) template =
        ([["T"]], [["T", "T"]])) ∧
    (Parses earlyAlias ∧ seen (fun j => (items "types" j).map (text "full_name")) earlyAlias =
      (["::A", "int"], ["::A", "int", "int"])) ∧
    (Parses earlyFunction ∧ seen (fun j => (items "functions" j).map (text "full_name")) earlyFunction =
      (["::f"], ["::f", "::f"])) ∧
    (Parses divided ∧ seen (fun j => (items "classes" j).map (text "from_file")) divided =
      (["/b.h", ""], ["/a.h", ""])) ∧
    (Parses belowReference ∧ seen (fun j => (items "enums" j).map (text "full_name")) belowReference = ([], ["::E"])) ∧
    (Parses broken ∧ seen (fun j => (items "classes" j).map (text "full_name")) broken = (["::A"], ["::A", "::B"])) ∧
    (Parses merged ∧
      seen (fun j => (items "classes" j).map fun c => (items "methods" c).map (text "name")) merged =
        ([["m", "n"], []], [["m", "n", "n"], []])) :=
  ⟨⟨by decide, rfl⟩, ⟨by decide, rfl⟩, ⟨by decide, rfl⟩, ⟨by decide, rfl⟩, ⟨by decide, rfl⟩, ⟨by decide, rfl⟩,
    by decide, rfl⟩

end SymbolIndex
