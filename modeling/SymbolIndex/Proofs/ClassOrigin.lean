import SymbolIndex.Proofs.AppendOnly
import SymbolIndex.Proofs.MemberOrigin

/-!
# The origin of a class

A class with members has the origin of the declaration that they came from. An empty one has the origin
of whichever declaration came last; a class with no members but data members counts as empty.
-/

namespace SymbolIndex

def Class.origin (record : Class) : String × String := (record.fromFile, record.includePath)

def Collector.originOf (c : Collector) (decl : Decl) : String × String :=
  (c.fileOf decl, c.includePath (c.fileOf decl))

theorem Collector.originOf_congr {c c' : Collector} (hb : c'.base = c.base) (hr : c'.roots = c.roots) (decl : Decl) :
    c'.originOf decl = c.originOf decl := by
  simp [originOf, fileOf, includePath, rootOf?, hb, hr]

/-! ## Empty classes -/

/-- While a class is empty, it has the origin of its last declaration. -/
def ClassEntry.Latest (decls : Decl → Prop) (origin : Decl → String × String) (entry : ClassEntry) : Prop :=
  entry.record.isEmpty = true →
    ∃ last, decls last ∧ entry.places.getLast? = some last.place ∧ entry.record.origin = origin last

section
variable {decls : Decl → Prop} {origin : Decl → String × String}

theorem ClassEntry.latest_outline (entry : ClassEntry) :
    entry.outline.Latest decls origin ↔ entry.Latest decls origin := by
  simp [Latest, outline, Class.outline, Class.isEmpty, Class.origin]

theorem ClassEntry.Latest.redeclare {entry : ClassEntry} {record : Class} {decl : Decl} (hd : decls decl)
    (hrecord : record.origin = origin decl) (access : Access) :
    (Database.redeclare entry record decl.place access).Latest decls origin := by
  unfold Database.redeclare
  split
  · exact fun _ => ⟨decl, hd, List.getLast?_concat, hrecord⟩
  · rename_i hfull
    exact fun hempty => absurd hempty hfull

theorem Extends.isEmpty {decl : Decl} {e e' : ClassEntry} (h : Extends decl e e') (hempty : e'.record.isEmpty = true) :
    e.record.isEmpty = true := by
  simp only [Class.isEmpty, Bool.and_eq_true, List.isEmpty_iff] at hempty ⊢
  obtain ⟨⟨hctors, hmethods⟩, hbases⟩ := hempty
  obtain ⟨added, hadded, -⟩ := h.bases
  have h₁ := h.constructors
  have h₂ := h.methods
  rw [hctors, List.map_nil, List.nil_eq_append_iff, List.map_eq_nil_iff] at h₁
  rw [hmethods, List.map_nil, List.nil_eq_append_iff, List.map_eq_nil_iff] at h₂
  rw [hbases, List.nil_eq_append_iff] at hadded
  exact ⟨⟨h₁.1, h₂.1⟩, hadded.1⟩

theorem ClassEntry.Latest.extends {decl : Decl} {e e' : ClassEntry} (h : e.Latest decls origin)
    (hext : Extends decl e e') : e'.Latest decls origin := by
  intro hempty
  obtain ⟨last, hlast, hplace, horigin⟩ := h (hext.isEmpty hempty)
  refine ⟨last, hlast, hext.places ▸ hplace, ?_⟩
  rw [Class.origin, hext.fromFile, hext.includePath]
  exact horigin

def Database.AllLatest (decls : Decl → Prop) (origin : Decl → String × String) (db : Database) : Prop :=
  ∀ entry ∈ db.classes, entry.Latest decls origin

theorem Database.AllLatest.of_outline {db db' : Database} (ho : db'.outline = db.outline)
    (h : db.AllLatest decls origin) : db'.AllLatest decls origin := by
  have hclasses : db'.classes.map ClassEntry.outline = db.classes.map ClassEntry.outline :=
    congrArg Database.classes ho
  intro entry he
  have hm := List.mem_map_of_mem (f := ClassEntry.outline) he
  rw [hclasses] at hm
  obtain ⟨old, hold, hsame⟩ := List.mem_map.mp hm
  rw [← entry.latest_outline, ← hsame, old.latest_outline]
  exact h old hold

theorem Database.AllLatest.updateClass {db : Database} (h : db.AllLatest decls origin) (fullName : String)
    {change : ClassEntry → ClassEntry} (hchange : ∀ e, e.Latest decls origin → (change e).Latest decls origin) :
    (db.updateClass fullName change).AllLatest decls origin := by
  intro entry he
  obtain ⟨old, hold, rfl⟩ := List.mem_map.mp he
  split
  · exact hchange old (h old hold)
  · exact h old hold

theorem Database.AllLatest.effect {c : Collector} {decl : Decl} {parent : Site} {db : Database} {d : Directive}
    (h : c.db.AllLatest decls origin) (hd : decls decl) (horigin : c.originOf decl = origin decl)
    (heff : c.Effect decl parent db d) : db.AllLatest decls origin := by
  cases heff with
  | opened kind named db_eq =>
    have hclasses : db.classes = c.db.classes := by
      rw [db_eq, Database.addNamespace_eq]
    unfold AllLatest
    rw [hclasses]
    exact h
  | declared scope kind named context db_eq d entered =>
    subst db_eq
    unfold addClass
    split
    · have hrecord : (c.classRecord decl scope).origin = origin decl := horigin
      exact h.updateClass _ fun e _ => .redeclare hd hrecord _
    · intro entry he
      rcases List.mem_append.mp he with he | he
      · exact h entry he
      · rw [List.mem_singleton.mp he]
        exact fun _ => ⟨decl, hd, rfl, horigin⟩
  | member entry change kind known db_eq extended d =>
    rw [db_eq]
    exact h.updateClass _ fun e he => he.extends (extended e)
  | quiet beside other d leaf =>
    unfold AllLatest
    rw [beside.classes]
    exact h

end

theorem Collector.collectAll_latest {c : Collector} (units : List SourceUnit) (h : c.db.classes = []) :
    (c.collectAll units).db.AllLatest (fun d => ∃ u ∈ units, d ∈ u.decls) (c.collectAll units).originOf := by
  have hall : ∀ u ∈ units, u ∈ units := fun _ hu => hu
  have hkept := history_invariant
    (P := fun c' => c'.base = c.base ∧ c'.roots = c.roots ∧
      c'.db.AllLatest (fun d => ∃ u ∈ units, d ∈ u.decls) c.originOf)
    (fun _ hP => hP) ?_ hall ⟨rfl, rfl, by simp [Database.AllLatest, h]⟩
  · obtain ⟨hb, hr, hlatest⟩ := hkept.1
    rw [funext (originOf_congr hb hr)]
    exact hlatest
  · rintro c' decl parent hdecl ⟨hb, hr, hP⟩
    obtain ⟨hb', hr'⟩ := c'.visit_paths decl parent
    refine ⟨hb'.trans hb, hr'.trans hr, ?_⟩
    apply visit_invariant (fun _ _ ho h => h.of_outline ho) _ hP
    intro c'' db d ha heff h''
    exact h''.effect hdecl (originOf_congr (ha.base.trans hb) (ha.roots.trans hr) decl) heff

/-! ## Noted declarations -/

def Database.Filled (db : Database) (fullName : String) : Prop :=
  ∃ g, db.digest? fullName = some g ∧ g.isEmpty = false

theorem Begins.find? {α : Type} {R : α → α → Prop} {p : α → Bool} (hR : ∀ {a b}, R a b → p b = p a)
    {l l' : List α} (h : Begins R l l') {a : α} (ha : l.find? p = some a) :
    ∃ b, l'.find? p = some b ∧ R a b := by
  induction h with
  | nil => cases ha
  | @cons x y xs ys head _ ih =>
    rw [List.find?_cons] at ha ⊢
    rw [hR head]
    cases hp : p x with
    | true =>
      rw [hp] at ha
      cases ha
      exact ⟨y, rfl, head⟩
    | false =>
      rw [hp] at ha
      exact ih ha

theorem Database.Filled.visit {fullName : String} (c : Collector) (decl : Decl) (parent : Site)
    (h : c.db.Filled fullName) : (c.visit decl parent).collector.db.Filled fullName := by
  obtain ⟨g, hg, hfull⟩ := h
  obtain ⟨entry, hentry, rfl⟩ := Option.map_eq_some_iff.mp hg
  obtain ⟨entry', hentry', hprec⟩ := (c.visit_precedes decl parent).classes.find?
    (p := fun e : ClassEntry => e.fullName == fullName) (fun h => by simp [ClassEntry.fullName, h.fullName]) hentry
  refine ⟨entry'.digest, Option.map_eq_some_iff.mpr ⟨entry', hentry', rfl⟩, ?_⟩
  rw [ClassEntry.digest_isEmpty] at hfull ⊢
  exact Class.isEmpty_of_outlines hprec.bases hprec.constructors hprec.methods hfull

theorem Walks.filled {forest : Forest} {parent : Decl} {c c' : Collector} {calls : List WalkCall}
    (h : Walks forest parent c calls c') {fullName : String} (hf : c.db.Filled fullName) : c'.db.Filled fullName :=
  h.invariant (P := (Database.Filled · fullName)) Database.Filled.visit hf

def Database.Notes (db : Database) (fullName : String) (place : Place) : Prop :=
  ∃ mark ∈ db.classMarks, mark.1 = fullName ∧ place ∈ mark.2

theorem Database.notes_of_outline {db db' : Database} (ho : db'.outline = db.outline) {fullName : String}
    {place : Place} : db'.Notes fullName place ↔ db.Notes fullName place := by
  rw [Notes, (marks_of_outline ho).2, Notes]

theorem Database.filled_of_passed {db : Database} {record : Class} {place : Place} {access : Access}
    (h : (db.addClass record place access).entersMembers = false) : db.Filled record.fullName := by
  unfold addClass at h
  split at h
  · rename_i entry hentry
    exact ⟨entry.digest, Option.map_eq_some_iff.mpr ⟨entry, hentry, rfl⟩, entry.digest_isEmpty.trans h⟩
  · cases h

theorem Collector.Effect.notes {c : Collector} {decl : Decl} {parent : Site} {db : Database} {d : Directive}
    (h : c.Effect decl parent db d) {fullName : String} {place : Place} (hn : db.Notes fullName place) :
    c.db.Notes fullName place ∨ place = decl.place ∧ (d = .enter ∨ c.db.Filled fullName) := by
  cases h with
  | opened kind named db_eq =>
    left
    rw [db_eq, Database.addNamespace_eq] at hn
    exact hn
  | declared scope kind named context db_eq d entered =>
    obtain ⟨mark, hm, rfl, hp⟩ := hn
    rw [db_eq, Database.classMarks_addClass] at hm
    rcases mem_addMark hm hp with ⟨hname, rfl⟩ | ⟨old, hold, hname, hp⟩
    · right
      refine ⟨rfl, ?_⟩
      cases henters : (c.db.addClass (c.classRecord decl scope) decl.place decl.classKey.access).entersMembers with
      | true =>
        left
        rw [entered, henters]
        rfl
      | false =>
        right
        rw [hname]
        exact Database.filled_of_passed henters
    · exact Or.inl ⟨old, hold, hname, hp⟩
  | member entry change kind known db_eq extended d =>
    left
    rw [db_eq, Database.Notes,
      Database.classMarks_updateClass _ _ _ fun e => ⟨(extended e).fullName, (extended e).places⟩] at hn
    exact hn
  | quiet beside other d leaf =>
    left
    rw [Database.Notes, Database.classMarks, beside.classes] at hn
    exact hn

theorem Collector.visit_notes {c : Collector} {decl : Decl} {parent : Site} {o : Outcome}
    (ho : c.visit decl parent = o) {d : Directive} (hok : o.answer = .ok d) {fullName : String} {place : Place}
    (hn : o.collector.db.Notes fullName place) :
    c.db.Notes fullName place ∨ place = decl.place ∧ (d = .enter ∨ o.collector.db.Filled fullName) := by
  rcases c.visit_cases decl parent with ⟨-, hv⟩ | ⟨-, c', d', ha, -, hv⟩ | ⟨-, c', ha, -, -, hv⟩
  · rw [← ho, hv] at hn
    exact Or.inl hn
  · rw [← ho, hv] at hn
    exact Or.inl ((Database.notes_of_outline ha.outline).mp hn)
  · have heff := visitDecl_effect (hv.symm.trans ho) hok
    rcases heff.notes hn with hold | ⟨hplace, henter | hfilled⟩
    · exact Or.inl ((Database.notes_of_outline ha.outline).mp hold)
    · exact Or.inr ⟨hplace, Or.inl henter⟩
    · refine Or.inr ⟨hplace, Or.inr ?_⟩
      rw [← ho]
      apply Database.Filled.visit
      unfold Database.Filled at hfilled ⊢
      rw [← Database.digest?_of_outline ha.outline]
      exact hfilled

theorem Walks.entered {forest : Forest} {parent : Decl} {c c' : Collector} {calls : List WalkCall}
    (h : Walks forest parent c calls c') {fullName : String} {place : Place}
    (hn : c'.db.Notes fullName place) (hempty : ¬ c'.db.Filled fullName) :
    c.db.Notes fullName place ∨ ∃ decl parent, ⟨decl, parent, some .enter⟩ ∈ calls ∧ decl.place = place := by
  induction h with
  | nil => exact Or.inl hn
  | @pass decl parent children rest c c' o calls visit answer further ih =>
    rcases ih hn hempty with hn | ⟨d, p, hm, hp⟩
    · rcases Collector.visit_notes visit answer hn with hold | ⟨-, hbad | hfilled⟩
      · exact Or.inl hold
      · cases hbad
      · exact absurd (further.filled hfilled) hempty
    · exact Or.inr ⟨d, p, List.mem_cons_of_mem _ hm, hp⟩
  | @enter decl parent children rest c c₁ c' o calls₁ calls₂ visit answer inner further ih₁ ih₂ =>
    rcases ih₂ hn hempty with hn | ⟨d, p, hm, hp⟩
    · have hempty₁ : ¬ c₁.db.Filled fullName := fun h => hempty (further.filled h)
      rcases ih₁ hn hempty₁ with hn | ⟨d, p, hm, hp⟩
      · rcases Collector.visit_notes visit answer hn with hold | ⟨hplace, -⟩
        · exact Or.inl hold
        · exact Or.inr ⟨decl, parent, List.mem_cons_self .., hplace.symm⟩
      · exact Or.inr ⟨d, p, List.mem_cons_of_mem _ (List.mem_append_left _ hm), hp⟩
    · exact Or.inr ⟨d, p, List.mem_cons_of_mem _ (List.mem_append_right _ hm), hp⟩

def Forest.CalledBelow (children : Forest) (decl : Decl) (calls : List WalkCall) : Prop :=
  ∀ child ∈ children.tops, ∃ d, ⟨child, decl, some d⟩ ∈ calls

theorem Forest.CalledBelow.mono {children : Forest} {decl : Decl} {calls calls' : List WalkCall}
    (h : children.CalledBelow decl calls) (hsub : calls ⊆ calls') : children.CalledBelow decl calls' := by
  intro child hc
  obtain ⟨d, hd⟩ := h child hc
  exact ⟨d, hsub hd⟩

theorem Forest.CalledBelow.cons {decl parent : Decl} {children rest : Forest} {d : Directive}
    {calls calls' : List WalkCall} (h : rest.CalledBelow parent calls) (hsub : calls ⊆ calls') :
    (Forest.cons decl children rest).CalledBelow parent (⟨decl, parent, some d⟩ :: calls') := by
  intro child hc
  rcases List.mem_cons.mp hc with rfl | hc
  · exact ⟨d, List.mem_cons_self ..⟩
  · exact h.mono (List.subset_cons_of_subset _ hsub) child hc

theorem Walks.calledBelow {forest : Forest} {parent : Decl} {c c' : Collector} {calls : List WalkCall}
    (h : Walks forest parent c calls c') : forest.CalledBelow parent calls := by
  induction h with
  | nil => intro child hc; cases hc
  | pass _ _ _ ih => exact ih.cons (List.Subset.refl _)
  | enter _ _ _ _ _ ih => exact ih.cons (List.subset_append_right ..)

theorem Walks.calledBelow_entered {forest : Forest} {parent : Decl} {c c' : Collector} {calls : List WalkCall}
    (h : Walks forest parent c calls c') {decl around : Decl} (he : ⟨decl, around, some .enter⟩ ∈ calls) :
    ∃ children, (decl, children) ∈ forest.nodes ∧ children.CalledBelow decl calls := by
  induction h with
  | nil => cases he
  | pass _ _ _ ih =>
    rcases List.mem_cons.mp he with hbad | he
    · cases hbad
    · obtain ⟨children, hm, hcalled⟩ := ih he
      exact ⟨children, List.mem_cons_of_mem _ (List.mem_append_right _ hm), hcalled.mono (List.subset_cons_self ..)⟩
  | enter _ _ inner _ ih₁ ih₂ =>
    rcases List.mem_cons.mp he with hhere | he
    · cases hhere
      exact ⟨_, List.mem_cons_self .., inner.calledBelow.mono
        (List.subset_cons_of_subset _ (List.subset_append_left ..))⟩
    rcases List.mem_append.mp he with he | he
    · obtain ⟨children, hm, hcalled⟩ := ih₁ he
      exact ⟨children, List.mem_cons_of_mem _ (List.mem_append_left _ hm),
        hcalled.mono (List.subset_cons_of_subset _ (List.subset_append_left ..))⟩
    · obtain ⟨children, hm, hcalled⟩ := ih₂ he
      exact ⟨children, List.mem_cons_of_mem _ (List.mem_append_right _ hm),
        hcalled.mono (List.subset_cons_of_subset _ (List.subset_append_right ..))⟩

/-! ## Runs -/

namespace Records

theorem collectAll {us : List SourceUnit} {c c' : Collector} {calls : List WalkCall} (h : Records c us calls c') :
    c' = c.collectAll us := by
  induction h with
  | nil => rfl
  | @cons c c₁ c' unit us calls calls' notes finished walk _ ih =>
    obtain ⟨calls₁, hwalk⟩ := unit.forest.walk_recording Collector.step unit.root (c.closeTemplates, []) []
    have hc₁ : c₁ = (c.collect unit).1.1 := by
      have hsame := walk.symm.trans hwalk
      exact congrArg (fun r => r.1.1.1) hsame
    rw [ih, hc₁]
    rfl

theorem filled {us : List SourceUnit} {c c' : Collector} {calls : List WalkCall} (h : Records c us calls c')
    {fullName : String} (hf : c.db.Filled fullName) : c'.db.Filled fullName := by
  induction h with
  | nil => exact hf
  | cons walk _ ih =>
    obtain ⟨-, new, -, hw⟩ := Walks.of_recording walk
    exact ih (hw.filled hf)

theorem entered {us : List SourceUnit} {c c' : Collector} {calls : List WalkCall} (h : Records c us calls c')
    {fullName : String} {place : Place} (hn : c'.db.Notes fullName place) (hempty : ¬ c'.db.Filled fullName) :
    c.db.Notes fullName place ∨
      ∃ u ∈ us, ∃ node ∈ u.forest.nodes, node.1.place = place ∧ node.2.CalledBelow node.1 calls := by
  induction h with
  | nil => exact Or.inl hn
  | @cons c c₁ c' unit us calls calls' notes finished walk further ih =>
    obtain ⟨-, new, hnew, hw⟩ := Walks.of_recording walk
    rw [List.nil_append] at hnew
    subst hnew
    rcases ih hn hempty with hn | ⟨u, hu, node, hm, hplace, hcalled⟩
    · rcases hw.entered hn fun hf => hempty (further.filled hf) with hold | ⟨decl, parent, hcall, hplace⟩
      · exact Or.inl hold
      · obtain ⟨children, hm, hcalled⟩ := hw.calledBelow_entered hcall
        exact Or.inr ⟨unit, List.mem_cons_self .., (decl, children), hm, hplace,
          hcalled.mono (List.subset_append_left ..)⟩
    · exact Or.inr ⟨u, List.mem_cons_of_mem _ hu, node, hm, hplace, hcalled.mono (List.subset_append_right ..)⟩

end Records

theorem Digest.GrownBy.isEmpty {counts : Decl → Bool} {children : List Decl} {g g' : Digest}
    (h : g.GrownBy counts children g') (hg : g.isEmpty = true)
    (hnone : ∀ child ∈ children, counts child = true → child.kind.fills = false) : g'.isEmpty = true := by
  obtain ⟨added, hadd, hall⟩ := h.bases
  have hfilter : ∀ kind : NodeKind → Bool, (∀ k, kind k = true → k.fills = true) →
      (children.filter fun d => counts d && kind d.kind) = [] := by
    intro kind hkind
    rw [List.filter_eq_nil_iff]
    intro child hm hcounted
    rw [Bool.and_eq_true] at hcounted
    have := hnone child hm hcounted.1
    rw [hkind _ hcounted.2] at this
    cases this
  have hctors := hfilter (· == .constructorDecl) (by simp +contextual [NodeKind.fills])
  have hmethods := hfilter NodeKind.isMethod (by simp +contextual [NodeKind.fills])
  have hbases := hfilter (· == .baseSpecifier) (by simp +contextual [NodeKind.fills])
  rw [hbases, List.map_nil, List.forall₂_nil_left_iff] at hall
  simp only [Digest.isEmpty, Bool.and_eq_true, List.isEmpty_iff] at hg ⊢
  rw [h.constructors, h.methods, hadd, hctors, hmethods, hall, hg.1.1, hg.1.2, hg.2]
  simp

section
variable {units : List SourceUnit} (wf : WellFormed units) {c : Collector} {calls : List WalkCall} {entry : ClassEntry}
  {unit : SourceUnit} (parsed : unit ∈ units) {decl : Decl} {children : Forest}
  (node : (decl, children) ∈ unit.forest.nodes)
include wf parsed node

theorem Named.declares_of_noted {db : Database} (hn : Named (SitesOf units) db) (known : entry ∈ db.classes)
    (noted : entry.declaredAt decl.place = true) : decl.site.Declares entry.fullName := by
  rw [ClassEntry.declaredAt, List.any_eq_true] at noted
  obtain ⟨place, hplace, hsame⟩ := noted
  exact hn.classes (entry.fullName, entry.places) (List.mem_map_of_mem known) place hplace decl.site
    ((wf.lies parsed).sites _ node) hsame

theorem WellFormed.unnested_of_bare (apart : children.Without entry.fullName)
    (bare : ∀ u ∈ units, ∀ other ∈ u.forest.nodes, other.1.site.Declares entry.fullName →
      other.1 ≠ decl → other.2 = .nil) : ∀ u ∈ units, u.forest.Unnested entry.fullName := by
  rintro u hu ⟨other, below⟩ hm hd
  by_cases hother : other = decl
  · subst hother
    rw [wf.children_eq hu parsed hm node]
    exact apart
  · rw [bare u hu (other, below) hm hd hother]
    simp [Forest.Without, Forest.nodes]

theorem Account.origin_of_bare (h : Account (units.flatMap (·.forest.nodes)) entry.fullName calls c)
    (known : c.db.digest? entry.fullName = some entry.digest) (full : entry.record.isEmpty = false)
    (bare : ∀ u ∈ units, ∀ other ∈ u.forest.nodes, other.1.site.Declares entry.fullName →
      other.1 ≠ decl → other.2 = .nil) :
    entry.record.origin = c.originOf decl ∧
      ∃ child ∈ children.tops, c.counts child = true ∧ child.kind.fills = true := by
  rcases h with ⟨hempty, -⟩ | ⟨g, hg, hfull, ⟨other, below⟩, hm, hfill⟩
  · have := hempty _ known
    rw [ClassEntry.digest_isEmpty, full] at this
    cases this
  obtain rfl := Option.some.inj (known.symm.trans hg)
  obtain ⟨u, hu, hm⟩ := List.mem_flatMap.mp hm
  have hfills : ∃ child ∈ below.tops, c.counts child = true ∧ child.kind.fills = true := by
    by_contra hnone
    have hempty := hfill.members.isEmpty rfl fun child hm hc => by
      by_contra hf
      exact hnone ⟨child, hm, hc, by simpa using hf⟩
    rw [hfull] at hempty
    cases hempty
  by_cases hother : other = decl
  · subst hother
    obtain rfl := wf.children_eq hu parsed hm node
    exact ⟨Prod.ext hfill.members.fromFile hfill.members.includePath, hfills⟩
  · obtain ⟨child, hchild, -⟩ := hfills
    obtain rfl : below = .nil := bare u hu (other, below) hm hfill.declares hother
    cases hchild

theorem Records.none_fills {base : String} {roots : List String} (run : Records (.start base roots {}) units calls c)
    (h : Account (units.flatMap (·.forest.nodes)) entry.fullName calls c) (known : entry ∈ c.db.classes)
    (declares : decl.site.Declares entry.fullName) (noted : entry.declaredAt decl.place = true)
    (empty : ¬ c.db.Filled entry.fullName) :
    ∀ child ∈ children.tops, c.counts child = true → child.kind.fills = false := by
  intro child hchild hcounted
  by_contra hfills
  rw [ClassEntry.declaredAt, List.any_eq_true] at noted
  obtain ⟨place, hplace, hsame⟩ := noted
  have hnotes : c.db.Notes entry.fullName place :=
    ⟨(entry.fullName, entry.places), List.mem_map_of_mem known, rfl, hplace⟩
  rcases run.entered hnotes empty with ⟨mark, hm, -⟩ | ⟨u, hu, ⟨other, below⟩, hm, rfl, hcalled⟩
  · cases hm
  -- the place is that of the declaration, so the children called are the declaration's
  obtain rfl : decl = other := wf.eq_of_same parsed hu (List.mem_cons_of_mem _ (List.mem_map_of_mem node))
    (List.mem_cons_of_mem _ (List.mem_map_of_mem hm)) hsame
  rw [wf.children_eq parsed hu node hm] at hchild
  obtain ⟨d, hcall⟩ := hcalled child hchild
  rcases h with ⟨-, hnone⟩ | ⟨g, hg, hfull, -⟩
  · exact hnone _ hcall ⟨declares, hcounted, by simpa using hfills⟩
  · exact empty ⟨g, hg, hfull⟩

end

/-- **The origin of a class.** Let a class have one declaration with children and else forward declarations
only. If a base, constructor or method stands among these children, in a file that counts, the class has
the origin of that declaration; if none does, it has the origin of the declaration that was noted last. -/
theorem origin_of_filling_or_last_declaration {base : String} {roots : List String} {units : List SourceUnit}
    {calls : List WalkCall} {c : Collector} (wf : WellFormed units)
    (run : Records (.start base roots {}) units calls c) {entry : ClassEntry} (known : entry ∈ c.db.classes)
    {unit : SourceUnit} (parsed : unit ∈ units) {decl : Decl} {children : Forest}
    (node : (decl, children) ∈ unit.forest.nodes) (noted : entry.declaredAt decl.place = true)
    (apart : children.Without entry.fullName)
    (bare : ∀ u ∈ units, ∀ other ∈ u.forest.nodes, other.1.site.Declares entry.fullName →
      other.1 ≠ decl → other.2 = .nil) :
    if children.tops.any (fun d => c.counts d && d.kind.fills) then
      entry.record.fromFile = c.fileOf decl ∧ entry.record.includePath = c.includePath (c.fileOf decl)
    else
      ∃ u ∈ units, ∃ last ∈ u.decls, entry.places.getLast? = some last.place ∧
        entry.record.fromFile = c.fileOf last ∧ entry.record.includePath = c.includePath (c.fileOf last) := by
  obtain ⟨hnamed, hunique⟩ := wf.collectAll_keeps (P := Database.UniqueClasses) (fun _ h => h.visit ..)
    (fun _ h => h) (Named.empty _ base roots) List.nodup_nil
  rw [← run.collectAll] at hnamed hunique
  have hdigest : c.db.digest? entry.fullName = some entry.digest := by
    rw [Database.digest?, hunique.findClass? known]
    rfl
  have hstart : Account (units.flatMap (·.forest.nodes)) entry.fullName [] (.start base roots {}) :=
    Or.inl ⟨(fun g hg => by cases hg), (fun call hc => by cases hc)⟩
  have haccount := run.account_of_unnested wf (wf.unnested_of_bare parsed node apart bare) (fun _ h => h)
    (Named.empty _ base roots) hstart
  cases hempty : entry.record.isEmpty with
  | false =>
    obtain ⟨horigin, child, hchild, hcounted, hfills⟩ :=
      haccount.origin_of_bare wf parsed node hdigest hempty bare
    rw [if_pos (List.any_eq_true.mpr ⟨child, hchild, by simp [hcounted, hfills]⟩)]
    exact Prod.mk.inj horigin
  | true =>
    have hunfilled : ¬ c.db.Filled entry.fullName := by
      rintro ⟨g, hg, hfull⟩
      obtain rfl := Option.some.inj (hdigest.symm.trans hg)
      rw [ClassEntry.digest_isEmpty, hempty] at hfull
      cases hfull
    have hnone := run.none_fills wf parsed node haccount known
      (hnamed.declares_of_noted wf parsed node known noted) noted hunfilled
    rw [if_neg (by simpa using hnone)]
    have hlatest := (Collector.start base roots {}).collectAll_latest units rfl
    rw [← run.collectAll] at hlatest
    obtain ⟨last, ⟨u, hu, hlast⟩, hplace, horigin⟩ := hlatest entry known hempty
    exact ⟨u, hu, last, hlast, hplace, Prod.mk.inj horigin⟩

namespace Forwarded

def early : Decl := { (Decl.wholeFile 0).within 1 .structDecl "S" with file := some "/p/early.h" }
def defined : Decl := { (Decl.wholeFile 0).within 2 .structDecl "S" with file := some "/p/defined.h" }
def late : Decl := { (Decl.wholeFile 0).within 3 .structDecl "S" with file := some "/p/late.h" }
def method : Decl := { defined.within 4 .methodDecl "f" with file := some "/p/defined.h" }

def data : Decl :=
  { defined.within 4 .fieldDecl "x" with file := some "/p/defined.h", type := .builtin {} .int }

-- `struct S;`, `struct S { … };` with one member, and `struct S;`, each in a file of its own
def unitWith (member : Decl) : SourceUnit where
  root := .wholeFile 0
  forest := .ofList [(early, .nil), (defined, .ofList [(member, .nil)]), (late, .nil)]

def walked (member : Decl) := (Collector.start "/" ["/p"] {}).collectRecording (unitWith member)

end Forwarded

open Forwarded in
theorem origin_between_forward_declarations :
    ∃ entry ∈ (walked method).1.1.1.db.classes, entry.places = [early.place, defined.place, late.place] ∧
      entry.record.fromFile = "/p/defined.h" ∧ entry.record.includePath = "defined.h" := by
  have wf : WellFormed [unitWith method] := by decide
  have run : Records (.start "/" ["/p"] {}) [unitWith method] ((walked method).1.2 ++ []) (walked method).1.1.1 :=
    .cons rfl .nil
  obtain ⟨entry, hentry⟩ : ∃ entry, (walked method).1.1.1.db.classes = [entry] := ⟨_, rfl⟩
  have known : entry ∈ (walked method).1.1.1.db.classes := by simp [hentry]
  have name : entry.fullName = "::S" := by
    have h : (walked method).1.1.1.db.classes.map (·.fullName) = ["::S"] := rfl
    simpa [hentry] using h
  have places : entry.places = [early.place, defined.place, late.place] := by
    have h : (walked method).1.1.1.db.classes.map (·.places) = [[early.place, defined.place, late.place]] := rfl
    simpa [hentry] using h
  have node : (defined, .ofList [(method, .nil)]) ∈ (unitWith method).forest.nodes := by decide
  have noted : entry.declaredAt defined.place = true := by
    rw [ClassEntry.declaredAt, places]
    decide
  have horigin := origin_of_filling_or_last_declaration wf run known (List.mem_singleton.mpr rfl) node noted
    (by rw [name]; decide) (by rw [name]; decide)
  rw [if_pos (by decide)] at horigin
  exact ⟨entry, known, places, horigin⟩

open Forwarded in
/-- With a data member as its only member, a class loses its origin to the next forward declaration. -/
theorem forward_declaration_takes_origin :
    (walked data).1.1.1.db.classes.map (fun entry => (entry.record.fields.map (·.name), entry.record.origin)) =
        [(["x"], ("/p/late.h", "late.h"))] ∧
      (walked data).1.1.1.originOf defined = ("/p/defined.h", "defined.h") := by
  decide

end SymbolIndex
