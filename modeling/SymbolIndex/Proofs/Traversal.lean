import Mathlib.Data.List.Nodup
import SymbolIndex.Proofs.History
import SymbolIndex.Proofs.Lists

/-!
# Walks with their events

A walk of the collector is a derivation over the forest, also a walk that fails: with its events in order, the
state it ends in, and whether it ran through. Behind an event that enters its declaration come the events of
the walk below it.
-/

namespace SymbolIndex

/-- A walk of a forest below a declaration, with its events and whether it ran through. -/
inductive Traverses : Forest → Decl → Collector → List Moment → Collector → Bool → Prop where
  | nil {parent : Decl} {c : Collector} : Traverses .nil parent c [] c true
  | fail {m : Moment} {children rest : Forest} {e : BrokenType} (answer : m.outcome.answer = .error e) :
      Traverses (.cons m.decl children rest) m.parent m.before [m] m.after false
  | pass {m : Moment} {children rest : Forest} {ms : List Moment} {c' : Collector} {done : Bool}
      (answer : m.outcome.answer = .ok .pass) (further : Traverses rest m.parent m.after ms c' done) :
      Traverses (.cons m.decl children rest) m.parent m.before (m :: ms) c' done
  | inside {m : Moment} {children rest : Forest} {ms : List Moment} {c' : Collector}
      (answer : m.outcome.answer = .ok .enter) (inner : Traverses children m.decl m.after ms c' false) :
      Traverses (.cons m.decl children rest) m.parent m.before (m :: ms) c' false
  | enter {m : Moment} {children rest : Forest} {ms ms' : List Moment} {c₁ c' : Collector} {done : Bool}
      (answer : m.outcome.answer = .ok .enter) (inner : Traverses children m.decl m.after ms c₁ true)
      (further : Traverses rest m.parent c₁ ms' c' done) :
      Traverses (.cons m.decl children rest) m.parent m.before (m :: (ms ++ ms')) c' done

/-- An event at the top of a forest, or at the top of what stands below a declaration that an event entered. -/
def Moment.ComesUnder (m : Moment) (forest : Forest) (parent : Decl) (ms : List Moment) : Prop :=
  m.parent = parent ∧ m.decl ∈ forest.tops ∨
    ∃ children, (m.parent, children) ∈ forest.nodes ∧ m.decl ∈ children.tops ∧
      ∃ m' ∈ ms, m'.decl = m.parent ∧ m'.outcome.answer = .ok .enter

namespace Moment.ComesUnder

variable {m m₀ : Moment} {children rest : Forest} {parent : Decl} {ms : List Moment}

theorem top (m : Moment) (children rest : Forest) (ms : List Moment) :
    m.ComesUnder (.cons m.decl children rest) m.parent ms := Or.inl ⟨rfl, List.mem_cons_self ..⟩

theorem below (h : m.ComesUnder children m₀.decl ms) (answer : m₀.outcome.answer = .ok .enter) (rest : Forest)
    (parent : Decl) (ms' : List Moment) :
    m.ComesUnder (.cons m₀.decl children rest) parent (m₀ :: (ms ++ ms')) := by
  rcases h with ⟨hparent, htop⟩ | ⟨siblings, hnode, htop, m₁, hm₁, hentered⟩
  · exact Or.inr ⟨children, hparent ▸ List.mem_cons_self .., htop, m₀, List.mem_cons_self .., hparent.symm, answer⟩
  · exact Or.inr ⟨siblings, List.mem_cons_of_mem _ (List.mem_append_left _ hnode), htop, m₁,
      List.mem_cons_of_mem _ (List.mem_append_left _ hm₁), hentered⟩

theorem after (h : m.ComesUnder rest parent ms) (m₀ : Moment) (children : Forest) (ms' : List Moment) :
    m.ComesUnder (.cons m₀.decl children rest) parent (m₀ :: (ms' ++ ms)) := by
  rcases h with ⟨hparent, htop⟩ | ⟨siblings, hnode, htop, m₁, hm₁, hentered⟩
  · exact Or.inl ⟨hparent, List.mem_cons_of_mem _ htop⟩
  · exact Or.inr ⟨siblings, List.mem_cons_of_mem _ (List.mem_append_right _ hnode), htop, m₁,
      List.mem_cons_of_mem _ (List.mem_append_right _ hm₁), hentered⟩

end Moment.ComesUnder

namespace Traverses

theorem of_watching : ∀ {forest : Forest} {parent : Decl} {c c' : Collector} {ms ms' : List Moment}
    {answer : Except BrokenType Bool}, forest.walk Collector.watching parent (c, ms) = ((c', ms'), answer) →
      ∃ new done, ms' = ms ++ new ∧ Traverses forest parent c new c' done ∧ (done = true ↔ answer = .ok true)
  | .nil, parent, c, c', ms, ms', answer, h => by
    simp only [Forest.walk, Prod.mk.injEq] at h
    obtain ⟨⟨rfl, rfl⟩, rfl⟩ := h
    exact ⟨[], true, by simp, .nil, by simp⟩
  | .cons decl children rest, parent, c, c', ms, ms', answer, h => by
    let m : Moment := ⟨c, decl, parent⟩
    simp only [Forest.walk, Collector.watching] at h
    cases ha : (c.visit decl parent.site).answer with
    | error e =>
      simp only [ha, Prod.mk.injEq] at h
      obtain ⟨⟨rfl, rfl⟩, rfl⟩ := h
      exact ⟨[m], false, rfl, .fail (m := m) ha, by simp⟩
    | ok d =>
      cases d with
      | stop => exact absurd ha (c.visit_not_stop decl parent.site)
      | pass =>
        simp only [ha] at h
        obtain ⟨new, done, hnew, hfurther, hdone⟩ := of_watching h
        exact ⟨m :: new, done, by rw [hnew, ← List.append_cons], .pass (m := m) ha hfurther, hdone⟩
      | enter =>
        simp only [ha] at h
        split at h
        · rename_i s hbelow
          obtain ⟨c₁, ms₁⟩ := s
          obtain ⟨new, done, hnew, hinner, hdone⟩ := of_watching hbelow
          obtain ⟨new', done', hnew', hfurther, hdone'⟩ := of_watching h
          rw [hdone.mpr rfl] at hinner
          exact ⟨m :: (new ++ new'), done', by simp [hnew', hnew, m], .enter (m := m) ha hinner hfurther, hdone'⟩
        · rename_i hhalted
          obtain ⟨new, done, hnew, hinner, hdone⟩ := of_watching h
          have hanswer : answer ≠ .ok true := fun hok => hhalted _ (by rw [h, hok])
          rw [Bool.eq_false_iff.mpr (mt hdone.mp hanswer)] at hinner
          exact ⟨m :: new, false, by rw [hnew, ← List.append_cons], .inside (m := m) ha hinner, by simpa using hanswer⟩

section
variable {forest : Forest} {parent : Decl} {c c' : Collector} {ms : List Moment} {done : Bool}

theorem decls_sublist (h : Traverses forest parent c ms c' done) :
    (ms.map Moment.decl).Sublist (forest.nodes.map Prod.fst) := by
  induction h with
  | nil => exact .slnil
  | fail => exact .cons_cons _ (List.nil_sublist _)
  | pass _ _ ih =>
    rw [Forest.nodes, List.map_cons, List.map_cons, List.map_append]
    exact .cons_cons _ (ih.trans (List.sublist_append_right _ _))
  | inside _ _ ih =>
    rw [Forest.nodes, List.map_cons, List.map_cons, List.map_append]
    exact .cons_cons _ (ih.trans (List.sublist_append_left _ _))
  | enter _ _ _ ihinner ihfurther =>
    rw [Forest.nodes, List.map_cons, List.map_cons, List.map_append, List.map_append]
    exact .cons_cons _ (ihinner.append ihfurther)

theorem error_of_not_done (h : Traverses forest parent c ms c' done) (hdone : done = false) :
    ∃ m ∈ ms, ∃ e, m.outcome.answer = .error e := by
  induction h with
  | nil => cases hdone
  | fail answer => exact ⟨_, List.mem_cons_self .., _, answer⟩
  | pass _ _ ih =>
    obtain ⟨m, hm, herror⟩ := ih hdone
    exact ⟨m, List.mem_cons_of_mem _ hm, herror⟩
  | inside _ _ ih =>
    obtain ⟨m, hm, herror⟩ := ih rfl
    exact ⟨m, List.mem_cons_of_mem _ hm, herror⟩
  | enter _ _ _ _ ih =>
    obtain ⟨m, hm, herror⟩ := ih hdone
    exact ⟨m, List.mem_cons_of_mem _ (List.mem_append_right _ hm), herror⟩

theorem comesUnder (h : Traverses forest parent c ms c' done) : ∀ m ∈ ms, m.ComesUnder forest parent ms := by
  induction h with
  | nil => simp
  | fail => exact List.forall_mem_singleton.mpr (.top _ _ _ _)
  | @pass m₀ children rest ms c' done _ _ ih =>
    refine List.forall_mem_cons.mpr ⟨.top _ _ _ _, ?_⟩
    intro m hm
    exact (ih m hm).after m₀ children []
  | @inside m₀ children rest ms c' answer _ ih =>
    refine List.forall_mem_cons.mpr ⟨.top _ _ _ _, ?_⟩
    intro m hm
    have hbelow := (ih m hm).below answer rest m₀.parent []
    rwa [List.append_nil] at hbelow
  | @enter m₀ children rest ms ms' c₁ c' done answer _ _ ihinner ihfurther =>
    refine List.forall_mem_cons.mpr ⟨.top _ _ _ _, ?_⟩
    intro m hm
    rcases List.mem_append.mp hm with hm | hm
    · exact (ihinner m hm).below answer rest m₀.parent ms'
    · exact (ihfurther m hm).after m₀ children ms

theorem invariant {P : Collector → Prop}
    (hstep : ∀ (c : Collector) (decl : Decl) (parent : Site), P c → P (c.visit decl parent).collector)
    (h : Traverses forest parent c ms c' done) (hc : P c) : P c' := by
  induction h with
  | nil => exact hc
  | fail => exact hstep _ _ _ hc
  | pass _ _ ih => exact ih (hstep _ _ _ hc)
  | inside _ _ ih => exact ih (hstep _ _ _ hc)
  | enter _ _ _ ihinner ihfurther => exact ihfurther (ihinner (hstep _ _ _ hc))

/-- Behind an event that enters come the events of the walk below it, and nothing more if that walk fails. -/
theorem walk_below (h : Traverses forest parent c ms c' done) {m : Moment} (hm : m.outcome.answer = .ok .enter) :
    ∀ {older later : List Moment}, ms = older ++ m :: later →
      ∃ children inner newer c₁ through, later = inner ++ newer ∧ (m.decl, children) ∈ forest.nodes ∧
        Traverses children m.decl m.after inner c₁ through ∧ (through = false → newer = [] ∧ done = false) := by
  induction h with
  | nil => simp
  | @fail m₀ _ _ e answer =>
    intro older later hms
    rcases List.cons_eq_append_iff.mp hms with ⟨rfl, heq⟩ | ⟨older', rfl, hrest⟩
    · cases heq
      rw [hm] at answer
      cases answer
    · simp at hrest
  | @pass m₀ children rest ms c' done answer further ih =>
    intro older later hms
    rcases List.cons_eq_append_iff.mp hms with ⟨rfl, heq⟩ | ⟨older', rfl, hrest⟩
    · cases heq
      rw [hm] at answer
      cases answer
    · obtain ⟨siblings, inner, newer, c₁, through, hlater, hnode, hbelow⟩ := ih hrest
      refine ⟨siblings, inner, newer, c₁, through, hlater, ?_, hbelow⟩
      exact List.mem_cons_of_mem _ (List.mem_append_right _ hnode)
  | @inside m₀ children rest ms c' answer inner ih =>
    intro older later hms
    rcases List.cons_eq_append_iff.mp hms with ⟨rfl, heq⟩ | ⟨older', rfl, hrest⟩
    · cases heq
      exact ⟨children, ms, [], c', false, by simp, List.mem_cons_self .., inner, fun _ => ⟨rfl, rfl⟩⟩
    · obtain ⟨siblings, inner, newer, c₁, through, hlater, hnode, hbelow⟩ := ih hrest
      exact ⟨siblings, inner, newer, c₁, through, hlater, List.mem_cons_of_mem _ (List.mem_append_left _ hnode), hbelow⟩
  | @enter m₀ children rest ms ms' c₁ c' done answer inner further ihinner ihfurther =>
    intro older later hms
    rcases List.cons_eq_append_iff.mp hms with ⟨rfl, heq⟩ | ⟨older', rfl, hrest⟩
    · cases heq
      exact ⟨children, ms, ms', c₁, true, rfl, List.mem_cons_self .., inner, by simp⟩
    · rcases append_eq_append_cons hrest with ⟨later₁, hinside, rfl⟩ | ⟨older₂, rfl, hafter⟩
      · obtain ⟨siblings, inner, newer, c₂, through, rfl, hnode, hwalk, hbelow⟩ := ihinner hinside
        refine ⟨siblings, inner, newer ++ ms', c₂, through, by simp,
          List.mem_cons_of_mem _ (List.mem_append_left _ hnode), hwalk, ?_⟩
        intro hfalse
        cases (hbelow hfalse).2
      · obtain ⟨siblings, inner, newer, c₂, through, hlater, hnode, hbelow⟩ := ihfurther hafter
        exact ⟨siblings, inner, newer, c₂, through, hlater, List.mem_cons_of_mem _ (List.mem_append_right _ hnode),
          hbelow⟩

end

end Traverses

/-! ## Events below a declaration -/

theorem Forest.not_mem_below {decl : Decl} {children : Forest} : ∀ {forest : Forest},
    (forest.nodes.map Prod.fst).Nodup → (decl, children) ∈ forest.nodes → decl ∉ children.nodes.map Prod.fst
  | nil, _, hnode => by simp [nodes] at hnode
  | cons top below rest, nodup, hnode => by
    rw [nodes, List.map_cons, List.map_append, List.nodup_cons, List.nodup_append] at nodup
    obtain ⟨htop, hbelow, hrest, -⟩ := nodup
    rcases List.mem_cons.mp hnode with heq | hnode
    · cases heq
      exact fun hmem => htop (List.mem_append_left _ hmem)
    · rcases List.mem_append.mp hnode with hnode | hnode
      · exact not_mem_below hbelow hnode
      · exact not_mem_below hrest hnode

def metUnder (parent : Decl) (ms : List Moment) : List Decl := (ms.filter (·.parent == parent)).map Moment.decl

theorem metUnder_append (parent : Decl) (ms ms' : List Moment) :
    metUnder parent (ms ++ ms') = metUnder parent ms ++ metUnder parent ms' := by
  simp [metUnder]

theorem mem_metUnder {parent d : Decl} {ms : List Moment} :
    d ∈ metUnder parent ms ↔ ∃ m ∈ ms, m.parent = parent ∧ m.decl = d := by
  simp [metUnder, and_assoc]

theorem metUnder_eq_nil {parent : Decl} {ms : List Moment} (h : ∀ m ∈ ms, m.parent ≠ parent) :
    metUnder parent ms = [] := by
  simpa [metUnder] using h

namespace Traverses

section
variable {forest : Forest} {parent : Decl} {c c' : Collector} {ms : List Moment} {done : Bool}

theorem metUnder_of_absent (h : Traverses forest parent c ms c' done) {d : Decl} (hne : d ≠ parent)
    (habsent : d ∉ forest.nodes.map Prod.fst) : metUnder d ms = [] := by
  apply metUnder_eq_nil
  rintro m hm rfl
  rcases h.comesUnder m hm with ⟨hparent, -⟩ | ⟨children, hnode, -⟩
  · exact hne hparent
  · exact habsent (List.mem_map_of_mem hnode)

theorem metUnder_top (h : Traverses forest parent c ms c' done) (hdone : done = true)
    (habsent : parent ∉ forest.nodes.map Prod.fst) : metUnder parent ms = forest.tops := by
  induction h with
  | nil => rfl
  | fail => cases hdone
  | @pass m children rest ms c' done _ _ ih =>
    rw [Forest.nodes, List.map_cons, List.map_append, List.mem_cons, List.mem_append, not_or, not_or] at habsent
    rw [Forest.tops, Forest.toList, List.map_cons, ← Forest.tops, ← ih hdone habsent.2.2]
    simp [metUnder]
  | inside => cases hdone
  | @enter m children rest ms ms' c₁ c' done _ inner _ _ ih =>
    rw [Forest.nodes, List.map_cons, List.map_append, List.mem_cons, List.mem_append, not_or, not_or] at habsent
    have hnone : metUnder m.parent ms = [] := inner.metUnder_of_absent habsent.1 habsent.2.1
    rw [Forest.tops, Forest.toList, List.map_cons, ← Forest.tops, ← ih hdone habsent.2.2]
    have hsplit : metUnder m.parent (m :: (ms ++ ms')) = m.decl :: (metUnder m.parent ms ++ metUnder m.parent ms') := by
      simp [metUnder]
    rw [hsplit, hnone, List.nil_append]

/-- Where a declaration was entered and the walk below it ran through, what was met right below it are its
children: no other event has it as its parent. -/
theorem metUnder_entered (h : Traverses forest parent c ms c' done) (nodup : (forest.nodes.map Prod.fst).Nodup)
    (habsent : parent ∉ forest.nodes.map Prod.fst) {older inner newer : List Moment} {m : Moment} {children : Forest}
    {c₁ : Collector} (hms : ms = older ++ m :: (inner ++ newer)) (hnode : (m.decl, children) ∈ forest.nodes)
    (hinner : Traverses children m.decl m.after inner c₁ true) :
    metUnder m.decl ms = children.tops ∧ metUnder m.decl (inner ++ newer) = children.tops := by
  have htops : metUnder m.decl inner = children.tops :=
    hinner.metUnder_top rfl (Forest.not_mem_below nodup hnode)
  have hinside : ∀ m' ∈ ms, m'.parent = m.decl → m'.decl ∈ inner.map Moment.decl := by
    intro m' hm' hparent
    rcases h.comesUnder m' hm' with ⟨htop, -⟩ | ⟨siblings, hnode', htop, -⟩
    · rw [← htop, hparent] at habsent
      exact absurd (List.mem_map_of_mem hnode) habsent
    · rw [hparent] at hnode'
      have hsame : children = siblings := congrArg Prod.snd (List.inj_on_of_nodup_map nodup hnode hnode' rfl)
      rw [← hsame, ← htops] at htop
      obtain ⟨m₁, hm₁, -, hdecl⟩ := mem_metUnder.mp htop
      exact hdecl ▸ List.mem_map_of_mem hm₁
  have hdecls := h.decls_sublist.nodup nodup
  rw [hms, List.map_append, List.map_cons, List.map_append, List.nodup_append, List.nodup_cons, List.nodup_append]
    at hdecls
  obtain ⟨-, ⟨hm, -, -, hnewer⟩, holder⟩ := hdecls
  have hnone_newer : metUnder m.decl newer = [] := by
    apply metUnder_eq_nil
    intro m' hm' hparent
    have hm'' : m' ∈ ms := by simp [hms, hm']
    exact hnewer _ (hinside m' hm'' hparent) _ (List.mem_map_of_mem hm') rfl
  have hnone_older : metUnder m.decl (older ++ [m]) = [] := by
    apply metUnder_eq_nil
    intro m' hm' hparent
    have hm'' : m' ∈ ms := by
      rw [hms]
      rcases List.mem_append.mp hm' with hm' | hm' <;> simp_all
    have hdecl := hinside m' hm'' hparent
    rcases List.mem_append.mp hm' with hm' | hm'
    · exact holder _ (List.mem_map_of_mem hm') _ (List.mem_cons_of_mem _ (List.mem_append_left _ hdecl)) rfl
    · rw [List.mem_singleton.mp hm'] at hdecl
      exact hm (List.mem_append_left _ hdecl)
  have hlater : metUnder m.decl (inner ++ newer) = children.tops := by
    rw [metUnder_append, htops, hnone_newer, List.append_nil]
  refine ⟨?_, hlater⟩
  rw [hms, List.append_cons, metUnder_append _ (older ++ [m]), hnone_older, hlater, List.nil_append]

end

end Traverses

/-! ## Units and runs -/

namespace Collector

theorem traverses (c : Collector) (unit : SourceUnit) :
    ∃ done, Traverses unit.forest unit.root c.closeTemplates (c.moments unit) (c.collect unit).1.1 done := by
  rw [← c.watching_collect unit]
  have hwalk : unit.forest.walk watching unit.root (c.closeTemplates, []) =
      (((unit.walk watching (c.closeTemplates, [])).1.1, c.moments unit), _) := rfl
  obtain ⟨new, done, hnew, h, -⟩ := Traverses.of_watching hwalk
  rw [List.nil_append] at hnew
  rw [← hnew] at h
  exact ⟨done, h⟩

theorem history_split : ∀ {units : List SourceUnit} {c : Collector} {older later : List Moment} {m : Moment},
    c.history units = older ++ m :: later → ∃ before u after older' later',
      units = before ++ u :: after ∧ (c.collectAll before).moments u = older' ++ m :: later' ∧
        later = later' ++ ((c.collectAll before).collect u).1.1.history after
  | [], _, _, _, _, h => by simp [history] at h
  | u :: units, c, older, later, m, h => by
    rcases append_eq_append_cons h with ⟨later', hmoments, hlater⟩ | ⟨older', -, hrest⟩
    · exact ⟨[], u, units, older, later', rfl, hmoments, hlater⟩
    · obtain ⟨before, v, after, older', later', hunits, hmoments, hlater⟩ := history_split hrest
      exact ⟨u :: before, v, after, older', later', by rw [hunits, List.cons_append], hmoments, hlater⟩

theorem mem_moments_of_history {units : List SourceUnit} {c : Collector} {m : Moment} (hm : m ∈ c.history units) :
    ∃ u ∈ units, ∃ c₁ : Collector, m ∈ c₁.moments u := by
  obtain ⟨older, later, h⟩ := List.append_of_mem hm
  obtain ⟨before, u, after, older', later', rfl, hmoments, -⟩ := history_split h
  exact ⟨u, by simp, _, by rw [hmoments]; simp⟩

theorem history_counts (c : Collector) (units : List SourceUnit) :
    ∀ m ∈ c.history units, ∀ decl, m.before.counts decl = c.counts decl := by
  have hall : ∀ u ∈ units, u ∈ units := fun _ hu => hu
  have hpaths := (history_invariant (P := fun c' => c'.base = c.base ∧ c'.roots = c.roots) (fun _ hP => hP) ?_ hall
    ⟨rfl, rfl⟩).2
  · intro m hm decl
    exact counts_congr (hpaths m hm).1 (hpaths m hm).2 decl
  · rintro c' decl parent - ⟨hb, hr⟩
    obtain ⟨hb', hr'⟩ := c'.visit_paths decl parent
    exact ⟨hb'.trans hb, hr'.trans hr⟩

end Collector

namespace DistinctPlaces

variable {units : List SourceUnit} {u v : SourceUnit} {d : Decl} {children : Forest}

theorem nodup_nodes (h : DistinctPlaces units) (hu : u ∈ units) : (u.forest.nodes.map Prod.fst).Nodup :=
  (List.nodup_cons.mp (h.nodup_decls hu)).2

theorem ne_root (h : DistinctPlaces units) (hu : u ∈ units) (hv : v ∈ units) (hnode : (d, children) ∈ u.forest.nodes) :
    d ≠ v.root := by
  rintro rfl
  have hmem : v.root ∈ u.forest.nodes.map Prod.fst := List.mem_map_of_mem hnode
  by_cases huv : u = v
  · subst huv
    exact (List.nodup_cons.mp (h.nodup_decls hu)).1 hmem
  · have hne := h.apart u hu v hv huv v.root (List.mem_cons_of_mem _ hmem) v.root (List.mem_cons_self ..)
    rw [Place.same_refl] at hne
    cases hne

section
variable (h : DistinctPlaces units) (hu : u ∈ units) (hnode : (d, children) ∈ u.forest.nodes)
include h hu hnode

theorem decl_of_parent (hv : v ∈ units) {c : Collector} {m : Moment} (hm : m ∈ c.moments v) (hparent : m.parent = d) :
    m.decl ∈ children.tops ∧ ∃ m' ∈ c.moments v, m'.decl = d ∧ m'.outcome.answer = .ok .enter := by
  obtain ⟨done, htraverses⟩ := c.traverses v
  rcases htraverses.comesUnder m hm with ⟨htop, -⟩ | ⟨siblings, hnode', htop, hentered⟩
  · exact absurd (hparent.symm.trans htop) (h.ne_root hu hv hnode)
  · rw [hparent] at hnode' hentered
    rw [h.children_eq hu hv hnode hnode']
    exact ⟨htop, hentered⟩

theorem parent_of_same (hv : v ∈ units) {c : Collector} {m : Moment} (hm : m ∈ c.moments v)
    (hsame : m.parent.place.same d.place = true) : m.parent = d := by
  obtain ⟨done, htraverses⟩ := c.traverses v
  have hparent : m.parent ∈ v.decls := by
    rcases htraverses.comesUnder m hm with ⟨htop, -⟩ | ⟨siblings, hnode', -⟩
    · rw [htop]
      exact List.mem_cons_self ..
    · exact List.mem_cons_of_mem _ (List.mem_map_of_mem hnode')
  exact h.eq_of_same hv hu hparent (List.mem_cons_of_mem _ (List.mem_map_of_mem hnode)) hsame

theorem metUnder_of_entered (hv : v ∈ units) {c : Collector} {older later : List Moment} {m : Moment}
    (hmoments : c.moments v = older ++ m :: later) (hdecl : m.decl = d) (hentered : m.outcome.answer = .ok .enter)
    (hok : ∀ m' ∈ later, m'.decl ∈ children.nodes.map Prod.fst → ∀ e, m'.outcome.answer ≠ .error e) :
    metUnder d (c.moments v) = children.tops ∧ metUnder d later = children.tops := by
  obtain ⟨done, htraverses⟩ := c.traverses v
  obtain ⟨children', inner, newer, c₁, through, rfl, hnode', hinner, -⟩ := htraverses.walk_below hentered hmoments
  subst hdecl
  obtain rfl := h.children_eq hu hv hnode hnode'
  have hthrough : through = true := by
    by_contra hfalse
    obtain ⟨m', hm', e, herror⟩ := hinner.error_of_not_done (by simpa using hfalse)
    have hbelow := hinner.decls_sublist.subset (List.mem_map_of_mem hm')
    exact hok m' (List.mem_append_left _ hm') hbelow e herror
  rw [hthrough] at hinner
  have habsent : v.root ∉ v.forest.nodes.map Prod.fst := (List.nodup_cons.mp (h.nodup_decls hv)).1
  exact htraverses.metUnder_entered (h.nodup_nodes hv) habsent hmoments hnode' hinner

theorem metUnder_history : ∀ {us : List SourceUnit} {c : Collector}, (∀ v ∈ us, v ∈ units) →
    (∀ m ∈ c.history us, m.decl ∈ children.nodes.map Prod.fst → ∀ e, m.outcome.answer ≠ .error e) →
      ∃ k, metUnder d (c.history us) = (List.replicate k children.tops).flatten
  | [], _, _, _ => ⟨0, rfl⟩
  | v :: us, c, hsub, hok => by
    have hv := hsub v (List.mem_cons_self ..)
    obtain ⟨k, hk⟩ := metUnder_history (fun w hw => hsub w (List.mem_cons_of_mem _ hw))
      (fun m hm => hok m (List.mem_append_right _ hm))
    rw [Collector.history, metUnder_append, hk]
    by_cases hmet : ∃ m ∈ c.moments v, m.parent = d
    · obtain ⟨m, hm, hparent⟩ := hmet
      obtain ⟨-, m', hm', hdecl, hentered⟩ := h.decl_of_parent hu hnode hv hm hparent
      obtain ⟨older, later, hmoments⟩ := List.append_of_mem hm'
      have hok' : ∀ m' ∈ later, m'.decl ∈ children.nodes.map Prod.fst → ∀ e, m'.outcome.answer ≠ .error e :=
        fun m' hm' => hok m' (List.mem_append_left _ (by rw [hmoments]; simp [hm']))
      refine ⟨k + 1, ?_⟩
      rw [(h.metUnder_of_entered hu hnode hv hmoments hdecl hentered hok').1, List.replicate_succ, List.flatten_cons]
    · refine ⟨k, ?_⟩
      rw [metUnder_eq_nil fun m hm hparent => hmet ⟨m, hm, hparent⟩, List.nil_append]

end

end DistinctPlaces

end SymbolIndex
