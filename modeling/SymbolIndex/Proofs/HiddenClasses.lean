import SymbolIndex.Proofs.AccessInForce
import SymbolIndex.Proofs.BrokenTypes
import SymbolIndex.Proofs.Writes

/-!
# Hidden classes

A class declared where the access in force is not public is passed over, and so is all that is below it.
Nothing of it is registered, and whatever stands below it makes no difference.
-/

namespace SymbolIndex

/-! ## Walks that do not enter a declaration -/

namespace Forest

def replaceBelow : Forest → Decl → Forest → Forest
  | nil, _, _ => nil
  | cons decl children rest, target, new =>
    cons decl (if decl = target then new else children.replaceBelow target new) (rest.replaceBelow target new)

theorem watching_keeps {m : Moment} (forest : Forest) (parent : Decl) {s : Collector × List Moment} (h : m ∈ s.2) :
    m ∈ (forest.walk Collector.watching parent s).1.2 :=
  walk_invariant (P := fun s : Collector × List Moment => m ∈ s.2)
    (fun _ _ _ _ h => List.mem_append_left _ h) h

theorem walk_replaceBelow {target : Decl} {new : Forest} : ∀ {forest : Forest} {parent : Decl} {c : Collector}
    {ms : List Moment} {notes : List Note},
    (∀ m ∈ (forest.walk Collector.watching parent (c, ms)).1.2, m.decl = target → m.outcome.answer ≠ .ok .enter) →
      (forest.replaceBelow target new).walk Collector.step parent (c, notes) =
        forest.walk Collector.step parent (c, notes)
  | nil, _, _, _, _, _ => rfl
  | cons decl children rest, parent, c, ms, notes, h => by
    simp only [walk, Collector.watching] at h
    simp only [replaceBelow, walk, Collector.step]
    generalize hv : c.visit decl parent.site = o at h
    cases ha : o.answer with
    | error e => rfl
    | ok d =>
      simp only [ha] at h
      cases d with
      | stop => rfl
      | pass => exact walk_replaceBelow h
      | enter =>
        simp only at h ⊢
        have hinner : ∀ m ∈ (children.walk Collector.watching decl (o.collector, ms ++ [⟨c, decl, parent⟩])).1.2,
            m.decl = target → m.outcome.answer ≠ .ok .enter := by
          intro m hm
          apply h
          split
          · rename_i s hs
            rw [hs] at hm
            exact rest.watching_keeps parent hm
          · exact hm
        have htarget : decl ≠ target := by
          intro hd
          apply hinner ⟨c, decl, parent⟩ (children.watching_keeps decl List.mem_concat_self) hd
          rw [Moment.outcome, hv]
          exact ha
        rw [if_neg htarget, walk_replaceBelow hinner]
        obtain ⟨hend, hanswer⟩ := Collector.watching_step children decl o.collector (ms ++ [⟨c, decl, parent⟩])
          (notes ++ o.notes)
        generalize children.walk Collector.watching decl (o.collector, ms ++ [⟨c, decl, parent⟩]) = watched
          at h hend hanswer
        generalize children.walk Collector.step decl (o.collector, notes ++ o.notes) = below at hend hanswer
        obtain ⟨⟨c₁, ms₁⟩, answer⟩ := watched
        obtain ⟨⟨c₂, notes₁⟩, answer'⟩ := below
        obtain rfl : c₁ = c₂ := hend
        obtain rfl : answer = answer' := hanswer
        cases answer with
        | error e => rfl
        | ok finished =>
          cases finished with
          | false => rfl
          | true => exact walk_replaceBelow h

end Forest

def SourceUnit.replaceBelow (unit : SourceUnit) (target : Decl) (new : Forest) : SourceUnit :=
  { unit with forest := unit.forest.replaceBelow target new }

namespace Collector

def results (c : Collector) : List SourceUnit → List ((Collector × List Note) × Except BrokenType Bool)
  | [] => []
  | unit :: units => c.collect unit :: (c.collect unit).1.1.results units

theorem results_replaceBelow {target : Decl} (new : Forest) : ∀ {units : List SourceUnit} {c : Collector},
    (∀ m ∈ c.history units, m.decl = target → m.outcome.answer ≠ .ok .enter) →
      c.results (units.map (·.replaceBelow target new)) = c.results units ∧
        c.collectAll (units.map (·.replaceBelow target new)) = c.collectAll units
  | [], _, _ => ⟨rfl, rfl⟩
  | unit :: units, c, h => by
    have hhere : c.collect (unit.replaceBelow target new) = c.collect unit :=
      Forest.walk_replaceBelow fun m hm => h m (List.mem_append_left _ hm)
    obtain ⟨hresults, hend⟩ := results_replaceBelow new (c := (c.collect unit).1.1)
      fun m hm => h m (List.mem_append_right _ hm)
    rw [List.map_cons, results, hhere, hresults, results]
    refine ⟨rfl, ?_⟩
    rw [collectAll, List.foldl_cons, hhere]
    exact hend

/-! ## Events at hidden classes -/

theorem visit_hidden {c : Collector} {decl : Decl} {parent : Site} {owner : ClassEntry}
    (kind : decl.kind.isClass = true) (inner : parent.kind ≠ .sourceUnit)
    (known : c.db.classAt? parent.place = some owner) (hidden : owner.access ≠ .everyone) :
    (c.visit decl parent).answer = .ok .pass ∧ (c.visit decl parent).collector.db = c.db := by
  by_cases counted : c.counts decl = true
  · have untaken : takes decl.kind = none := by
      cases hk : decl.kind <;> simp_all [NodeKind.isClass, takes]
    have hcontext : c.closeTemplates.classContext parent = .hidden := by
      have hknown : c.closeTemplates.db.classAt? parent.place = some owner := known
      rw [classContext, if_neg inner, hknown]
      exact if_neg hidden
    have hclass : c.closeTemplates.visitDecl decl parent = c.closeTemplates.visitClass decl parent := by
      cases hk : decl.kind <;> simp_all [NodeKind.isClass, visitDecl]
    rw [visit_of_untaken counted untaken, hclass, visitClass, hcontext]
    simp only
    split <;> exact ⟨rfl, rfl⟩
  · have hpassed : c.visit decl parent = c.answer c.db .pass [] := if_neg counted
    rw [hpassed]
    exact ⟨rfl, rfl⟩

end Collector

/-! ## Registered places -/

namespace Database

def Marked (marks : List Mark) (place : Place) : Prop := ∃ mark ∈ marks, place ∈ mark.2

def Holds (db : Database) (place : Place) : Prop :=
  Marked db.namespaceMarks place ∨ Marked db.classMarks place ∨ ∃ e ∈ db.enums, e.place = place

theorem entryAt?_eq_none {db : Database} {place : Place} (h : ∀ p, db.Holds p → place.same p = false) :
    db.entryAt? place = none := by
  have hnamespaces : ∀ e ∈ db.namespaces, ∀ p ∈ e.places, place.same p = false :=
    fun e he p hp => h p (Or.inl ⟨(e.fullName, e.places), List.mem_map_of_mem he, hp⟩)
  have hclasses : ∀ e ∈ db.classes, ∀ p ∈ e.places, place.same p = false :=
    fun e he p hp => h p (Or.inr (Or.inl ⟨(e.fullName, e.places), List.mem_map_of_mem he, hp⟩))
  have henums : ∀ e ∈ db.enums, place.same e.place = false :=
    fun e he => h e.place (Or.inr (Or.inr ⟨e, he, rfl⟩))
  simpa [entryAt?, namespaceAt?, classAt?, enumAt?, NamespaceEntry.declaredAt, ClassEntry.declaredAt,
    EnumEntry.declaredAt] using ⟨hnamespaces, hclasses, henums⟩

theorem Holds.of_outline {db db' : Database} (ho : db'.outline = db.outline) {place : Place} (h : db'.Holds place) :
    db.Holds place := by
  obtain ⟨hnamespaces, hclasses⟩ := marks_of_outline ho
  rw [Holds, hnamespaces, hclasses, enums_of_outline ho] at h
  exact h

theorem Marked.of_addMark {name : String} {place p : Place} {marks : List Mark}
    (h : Marked (addMark name place marks) p) : Marked marks p ∨ p = place := by
  obtain ⟨mark, hm, hp⟩ := h
  rcases mem_addMark hm hp with ⟨-, hplace⟩ | ⟨old, hold, -, hp⟩
  · exact Or.inr hplace
  · exact Or.inl ⟨old, hold, hp⟩

end Database

namespace Collector

theorem Effect.holds {c : Collector} {decl : Decl} {parent : Site} {db : Database} {d : Directive}
    (h : c.Effect decl parent db d) {place : Place} (hp : db.Holds place) : c.db.Holds place ∨ place = decl.place := by
  cases h with
  | opened kind named db_eq =>
    subst db_eq
    rcases hp with hp | hp
    · rw [Database.namespaceMarks_addNamespace] at hp
      exact hp.of_addMark.imp_left Or.inl
    · rw [Database.addNamespace_eq] at hp
      exact Or.inl (Or.inr hp)
  | declared scope kind named context db_eq d entered =>
    have hnamespaces : db.namespaces = c.db.namespaces := by
      rw [db_eq]
      unfold Database.addClass
      split <;> rfl
    have henums : db.enums = c.db.enums := by
      rw [db_eq]
      unfold Database.addClass
      split <;> rfl
    rw [Database.Holds, Database.namespaceMarks, hnamespaces, henums, db_eq, Database.classMarks_addClass] at hp
    rcases hp with hp | hp | hp
    · exact Or.inl (Or.inl hp)
    · exact hp.of_addMark.imp_left fun hp => Or.inr (Or.inl hp)
    · exact Or.inl (Or.inr (Or.inr hp))
  | member entry change kind known db_eq extended d =>
    left
    rw [db_eq, Database.Holds,
      Database.classMarks_updateClass _ _ _ fun e => ⟨(extended e).fullName, (extended e).places⟩] at hp
    exact hp
  | quiet beside other d leaf =>
    rw [Database.Holds, Database.namespaceMarks, Database.classMarks, beside.namespaces, beside.classes] at hp
    rcases hp with hp | hp | ⟨e, he, rfl⟩
    · exact Or.inl (Or.inl hp)
    · exact Or.inl (Or.inr (Or.inl hp))
    · rcases beside.enums e he with ⟨-, hplace⟩ | ⟨old, hold, -, hplace⟩
      · exact Or.inr hplace
      · exact Or.inl (Or.inr (Or.inr ⟨old, hold, hplace⟩))

theorem visit_holds (c : Collector) (decl : Decl) (parent : Site) :
    ∀ place, (c.visit decl parent).collector.db.Holds place → c.db.Holds place ∨ place = decl.place := by
  apply visit_invariant (P := fun db => ∀ place, db.Holds place → c.db.Holds place ∨ place = decl.place)
  · exact fun db db' ho h place hp => h place (hp.of_outline ho)
  · intro c' db d ha heff h place hp
    rcases heff.holds hp with hp | hp
    · exact h place hp
    · exact Or.inr hp
  · exact fun place hp => Or.inl hp

end Collector

/-! ## One place for each declaration -/

namespace Forest

theorem toList_sublist_nodes : ∀ forest : Forest, forest.toList.Sublist forest.nodes
  | nil => .slnil
  | cons decl children rest => by
    rw [toList, nodes]
    exact (rest.toList_sublist_nodes.trans (List.sublist_append_right ..)).cons_cons _

theorem nodes_sublist {node : Decl × Forest} : ∀ {forest : Forest}, node ∈ forest.nodes →
    node.2.nodes.Sublist forest.nodes
  | nil, h => by simp [nodes] at h
  | cons decl children rest, h => by
    simp only [nodes, List.mem_cons, List.mem_append] at h ⊢
    rcases h with rfl | h | h
    · exact (List.sublist_append_left ..).cons _
    · exact ((nodes_sublist h).trans (List.sublist_append_left ..)).cons _
    · exact ((nodes_sublist h).trans (List.sublist_append_right ..)).cons _

theorem Enclosed.under {place : Place} : ∀ {forest : Forest} {parent : Site}, forest.Enclosed parent →
    place ∈ parent.chain → ∀ node ∈ forest.nodes, place ∈ node.1.site.outer
  | nil, _, _, _, node, hm => by simp [nodes] at hm
  | cons decl children rest, parent, ⟨houter, hbelow, hafter⟩, hp, node, hm => by
    have hhere : place ∈ decl.site.outer := houter ▸ hp
    simp only [nodes, List.mem_cons, List.mem_append] at hm
    rcases hm with rfl | hm | hm
    · exact hhere
    · exact hbelow.under (List.mem_cons_of_mem _ hhere) node hm
    · exact hafter.under hp node hm

end Forest

section
variable {units : List SourceUnit} (wf : WellFormed units) {unit : SourceUnit} (parsed : unit ∈ units) {owner : Decl}
  {siblings : Forest} (node : (owner, siblings) ∈ unit.forest.nodes) (inClass : owner.kind.isClass = true)
  {older newer : List (Decl × Forest)} {decl : Decl} {children : Forest}
  (position : siblings.toList = older ++ (decl, children) :: newer)
include wf parsed node position

theorem WellFormed.mem_nodes : (decl, children) ∈ unit.forest.nodes := by
  apply ((wf.enclosed unit parsed).below node).2
  apply Forest.mem_nodes_of_mem_toList
  rw [position]
  exact List.mem_append_right _ (List.mem_cons_self ..)

theorem WellFormed.outer_eq : decl.site.outer = owner.site.chain := by
  have hbelow := ((wf.enclosed unit parsed).below node).1
  rw [Forest.enclosed_iff, position] at hbelow
  exact (hbelow (decl, children) (List.mem_append_right _ (List.mem_cons_self ..))).1

theorem WellFormed.once_among_siblings : decl ∉ older.map Prod.fst ∧ decl ∉ newer.map Prod.fst := by
  have htops : siblings.tops.Sublist unit.decls :=
    ((siblings.toList_sublist_nodes.trans (Forest.nodes_sublist node)).map _).cons _
  have hnodup := (wf.nodup_decls parsed).sublist htops
  rw [Forest.tops, position, List.map_append, List.map_cons, List.nodup_middle, List.nodup_cons, List.mem_append,
    not_or] at hnodup
  exact hnodup.1

/-- As long as the place of a class is not registered, nothing below it has an event. -/
theorem Moment.not_below_unregistered (kind : decl.kind.isClass = true) {base : String} {roots : List String}
    {m : Moment} (hm : m ∈ (Collector.start base roots {}).history units)
    (h : ∀ p, m.before.db.Holds p → decl.place.same p = false) : m.decl ∉ children.nodes.map Prod.fst := by
  intro hbelow
  obtain ⟨inner, hinner, hd⟩ := List.mem_map.mp hbelow
  have hsituated := wf.situated (fun _ h => h) (Named.empty _ base roots) m hm
  have hunder : decl.place ∈ m.parent.site.chain := by
    rw [← hsituated.outer, ← hd]
    have henclosed := ((wf.enclosed unit parsed).below (wf.mem_nodes parsed node position)).1
    exact henclosed.under (List.mem_cons_self ..) inner hinner
  obtain ⟨mark, hmark, p, hp, hsame⟩ := markAt?_isSome.mp ((hsituated.entered decl.place hunder).2 kind)
  have := h p (Or.inr (Or.inl ⟨mark, hmark, hp⟩))
  rw [hsame] at this
  cases this

include inClass

theorem SourceUnit.Ahead.eq_position {v : SourceUnit} (hv : v ∈ units) {parent : Decl}
    {older' : List (Decl × Forest)} {children' rest : Forest} (h : v.Ahead parent older' (.cons decl children' rest)) :
    parent = owner ∧ older'.map Prod.fst = older.map Prod.fst := by
  have hchain : parent.site.chain = owner.site.chain :=
    (h.enclosed (wf.enclosed v hv)).1.symm.trans (wf.outer_eq parsed node position)
  have hplace : parent.place = owner.place := (List.cons.inj hchain).1
  have hparent : parent ∈ v.decls := by
    obtain ⟨whole, htree, -⟩ := h
    exact List.mem_map_of_mem (f := Prod.fst) htree
  obtain rfl : parent = owner := by
    refine wf.eq_of_same hv parsed hparent (List.mem_cons_of_mem _ (List.mem_map_of_mem node)) ?_
    rw [hplace, Place.same_refl]
  refine ⟨rfl, ?_⟩
  obtain ⟨siblings', hnode, hlist⟩ := h.node (wf.rooted v hv).1 inClass
  obtain rfl := wf.children_eq hv parsed hnode node
  rw [position] at hlist
  have hdecls := congrArg (List.map Prod.fst) hlist
  rw [Forest.toList, List.map_append, List.map_append, List.map_cons, List.map_cons] at hdecls
  obtain ⟨hold, hnew⟩ := wf.once_among_siblings parsed node position
  exact ((List.append_cons_inj_of_notMem hold hnew).mp hdecls).1.symm

variable (placed : NamespacesPlaced units) (files : FilesAtRoots units) (kind : decl.kind.isClass = true)
  {base : String} {roots : List String}
  (hidden : (Collector.start base roots {}).accessAfter owner (older.map Prod.fst) ≠ .everyone)
include placed files kind hidden

theorem Moment.passes_hidden {m : Moment} (hm : m ∈ (Collector.start base roots {}).history units)
    (hd : m.decl = decl) : m.outcome.answer = .ok .pass ∧ m.after.db = m.before.db := by
  have hempty : (Collector.start base roots {}).db.UniqueClasses := List.nodup_nil
  obtain ⟨hbase, hroots, hunique⟩ := Collector.history_settings hempty m hm
  obtain ⟨v, hv, older', children', rest, hunderway⟩ :=
    wf.underway placed files (fun _ h => h) (Named.empty _ base roots) m hm
  subst hd
  obtain ⟨hparent, holder⟩ := hunderway.ahead.eq_position wf parsed node inClass position hv
  subst hparent
  -- the walk is inside the class around, so that is registered
  have hmark := (hunderway.entered m.parent.place (List.mem_cons_self ..)).2 inClass
  rw [← Database.classAt?_name, Option.isSome_map] at hmark
  obtain ⟨entry, known⟩ := Option.isSome_iff_exists.mp hmark
  have haccess := hunderway.access_of_classAt? wf hv hunique known
  rw [holder, Collector.accessAfter_congr hbase hroots] at haccess
  have hfile : m.parent.site.kind ≠ .sourceUnit := by
    intro hk
    have hclass : m.parent.site.kind.isClass = true := inClass
    simp [hk, NodeKind.isClass] at hclass
  exact Collector.visit_hidden kind hfile known (haccess ▸ hidden)

theorem Moment.unregistered_step {m : Moment} (hm : m ∈ (Collector.start base roots {}).history units)
    (h : ∀ x ∈ (decl, children) :: children.nodes, ∀ p, m.before.db.Holds p → x.1.place.same p = false) :
    ∀ x ∈ (decl, children) :: children.nodes, ∀ p, m.after.db.Holds p → x.1.place.same p = false := by
  intro x hx p hp
  rcases m.before.visit_holds m.decl m.parent.site p hp with hold | rfl
  · exact h x hx p hold
  by_contra hsame
  have hmem : x ∈ unit.forest.nodes := by
    have hdecl := wf.mem_nodes parsed node position
    rcases List.mem_cons.mp hx with rfl | hx
    · exact hdecl
    · exact ((wf.enclosed unit parsed).below hdecl).2 x hx
  obtain ⟨u, hu, hd⟩ := Collector.decl_of_history m hm
  have heq : x.1 = m.decl := wf.eq_of_same parsed hu (List.mem_cons_of_mem _ (List.mem_map_of_mem hmem)) hd
    (by simpa using hsame)
  rcases List.mem_cons.mp hx with rfl | hx
  · have hkept := (m.passes_hidden wf parsed node inClass position placed files kind hidden hm heq.symm).2
    rw [hkept] at hp
    exact hsame (h _ (List.mem_cons_self ..) _ hp)
  · apply m.not_below_unregistered wf parsed node position kind hm (h _ (List.mem_cons_self ..))
    rw [← heq]
    exact List.mem_map_of_mem hx

end

/-- **Hidden classes.** A class declared in a class, where the access in force is not public, is registered
in no state of a run, and neither is anything below it. Its own events change nothing, nothing below it has
an event, and with any other forest below it every walk of the run comes to the same collector, the same
notes and the same answer. -/
theorem hidden_class_leaves_no_trace {base : String} {roots : List String} {units : List SourceUnit}
    (wf : WellFormed units) (placed : NamespacesPlaced units) (files : FilesAtRoots units) {unit : SourceUnit}
    (parsed : unit ∈ units) {owner : Decl} {siblings : Forest} (node : (owner, siblings) ∈ unit.forest.nodes)
    (inClass : owner.kind.isClass = true) {older newer : List (Decl × Forest)} {decl : Decl} {children : Forest}
    (position : siblings.toList = older ++ (decl, children) :: newer) (kind : decl.kind.isClass = true)
    (hidden : (Collector.start base roots {}).accessAfter owner (older.map Prod.fst) ≠ .everyone) :
    (∀ state ∈ (Collector.start base roots {}).states units, ∀ x ∈ (decl, children) :: children.nodes,
      state.db.entryAt? x.1.place = none) ∧
    (∀ m ∈ (Collector.start base roots {}).history units,
      m.decl ∉ children.nodes.map Prod.fst ∧
        (m.decl = decl → m.outcome.answer = .ok .pass ∧ m.after.db = m.before.db)) ∧
    ∀ new : Forest,
      (Collector.start base roots {}).results (units.map (·.replaceBelow decl new)) =
        (Collector.start base roots {}).results units ∧
      (Collector.start base roots {}).collectAll (units.map (·.replaceBelow decl new)) =
        (Collector.start base roots {}).collectAll units := by
  have hpasses : ∀ m ∈ (Collector.start base roots {}).history units, m.decl = decl →
      m.outcome.answer = .ok .pass ∧ m.after.db = m.before.db :=
    fun m hm => m.passes_hidden wf parsed node inClass position placed files kind hidden hm
  have hempty : ∀ x ∈ (decl, children) :: children.nodes, ∀ p, (Collector.start base roots {}).db.Holds p →
      x.1.place.same p = false := by
    rintro - - p (⟨mark, hm, -⟩ | ⟨mark, hm, -⟩ | ⟨e, hm, -⟩) <;> cases hm
  have hkept := (Collector.chained_history units (.start base roots {})).invariant
    (P := fun db => ∀ x ∈ (decl, children) :: children.nodes, ∀ p, db.Holds p → x.1.place.same p = false)
    (fun m hm => m.unregistered_step wf parsed node inClass position placed files kind hidden hm) hempty
  refine ⟨?_, ?_, ?_⟩
  · intro state hstate x hx
    apply Database.entryAt?_eq_none
    rcases List.mem_cons.mp hstate with rfl | hstate
    · exact hempty x hx
    · obtain ⟨m, hm, rfl⟩ := List.mem_map.mp hstate
      exact (hkept.2 m hm).2 x hx
  · intro m hm
    have hfree := (hkept.2 m hm).1 (decl, children) (List.mem_cons_self ..)
    exact ⟨m.not_below_unregistered wf parsed node position kind hm hfree, hpasses m hm⟩
  · intro new
    apply Collector.results_replaceBelow new
    intro m hm hd henter
    rw [(hpasses m hm hd).1] at henter
    cases henter

namespace PrivateClass

def whole : Decl := (Decl.wholeFile 0).within 1 .structDecl "S"
def access : Decl := { whole.within 2 .accessSpec "" with access := .derived }
def guarded : Decl := whole.within 3 .structDecl "In"
def enum : Decl := guarded.within 4 .enumDecl "E"
def method : Decl := whole.within 5 .methodDecl "f"
def stray : Decl := guarded.within 6 .methodDecl "g"

-- `struct S { protected: struct In { enum E {}; }; void f(); };`
def unit : SourceUnit where
  root := .wholeFile 0
  forest := .ofList [(whole, .ofList [(access, .nil), (guarded, .ofList [(enum, .nil)]), (method, .nil)])]

end PrivateClass

open PrivateClass in
theorem protected_class_leaves_no_trace :
    (∀ state ∈ (Collector.start "/" [] {}).states [unit],
      state.db.entryAt? guarded.place = none ∧ state.db.entryAt? enum.place = none) ∧
    (unit.replaceBelow guarded (.ofList [(stray, .nil)])).decls = [.wholeFile 0, whole, access, guarded, stray, method] ∧
    (Collector.start "/" [] {}).results [unit.replaceBelow guarded (.ofList [(stray, .nil)])] =
      (Collector.start "/" [] {}).results [unit] := by
  have wf : WellFormed [unit] := by decide
  have node : (whole, .ofList [(access, .nil), (guarded, .ofList [(enum, .nil)]), (method, .nil)]) ∈ unit.forest.nodes := by
    decide
  have position : (Forest.ofList [(access, .nil), (guarded, .ofList [(enum, .nil)]), (method, .nil)]).toList =
      [(access, .nil)] ++ (guarded, .ofList [(enum, .nil)]) :: [(method, .nil)] := by
    decide
  have hidden : (Collector.start "/" [] {}).accessAfter whole ([(access, Forest.nil)].map Prod.fst) ≠ .everyone := by
    decide
  obtain ⟨hfree, -, hsame⟩ := hidden_class_leaves_no_trace wf (by decide) (by decide) (List.mem_singleton.mpr rfl) node
    (by decide) position (by decide) hidden
  refine ⟨?_, by decide, (hsame _).1⟩
  intro state hstate
  exact ⟨hfree state hstate (guarded, .ofList [(enum, .nil)]) (by decide),
    hfree state hstate (enum, .nil) (by decide)⟩

namespace Reopened

def holder : Decl := whole.within 7 .structDecl "H"
def nested : Decl × Forest := (holder, .ofList [(holder.within 8 .enumDecl "E", .nil)])

def found (tree : Decl × Forest) : List String :=
  (walked tree nested).db.classes.map ClassEntry.fullName ++ (walked tree nested).db.enums.map EnumEntry.fullName

end Reopened

open Reopened in
/-- The inner class and its enum are registered, though no access specifier stands before them. -/
theorem hidden_class_found_inside_itself :
    (Private belowUnion nested ∧ found belowUnion = ["::N::S", "::N::S::H", "::N::S::H::E"]) ∧
      Private belowFile nested ∧ found belowFile = ["::N::S", "::N::S::H", "::N::S::H::E"] := by
  refine ⟨⟨⟨by decide, by decide, by decide, by decide⟩, rfl⟩,
    ⟨by decide, by decide, by decide, by decide⟩, rfl⟩

end SymbolIndex
