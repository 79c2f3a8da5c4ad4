import SymbolIndex.Proofs.Run

/-!
# Histories

The history of a run lists its events in order, each with the state it found. What an event keeps
holds in every state of a run, and what an event does to the database adds up along the history.
-/

namespace SymbolIndex

/-- One event of a run, with the state it found. -/
structure Moment where
  before : Collector
  decl : Decl
  parent : Decl

namespace Moment

def outcome (m : Moment) : Outcome := m.before.visit m.decl m.parent.site

def after (m : Moment) : Collector := m.outcome.collector

end Moment

namespace Collector

def watching : WalkStep (Collector × List Moment) BrokenType :=
  fun (c, moments) decl parent =>
    let outcome := c.visit decl parent.site
    ((outcome.collector, moments ++ [⟨c, decl, parent⟩]), outcome.answer)

def bareStep : WalkStep Collector BrokenType :=
  fun c decl parent => ((c.visit decl parent.site).collector, (c.visit decl parent.site).answer)

def moments (c : Collector) (unit : SourceUnit) : List Moment :=
  (unit.walk watching (c.closeTemplates, [])).1.2

/-- All events of the walks of units one after the other, also those of a walk that fails. -/
def history (c : Collector) : List SourceUnit → List Moment
  | [] => []
  | unit :: units => c.moments unit ++ (c.collect unit).1.1.history units

/-- The states of a run: the first one and those after its events. -/
def states (c : Collector) (units : List SourceUnit) : List Collector :=
  c :: (c.history units).map Moment.after

end Collector

/-! ## Walks in general -/

namespace Forest

variable {σ τ ε : Type}

theorem walk_invariant {step : WalkStep σ ε} {P : σ → Prop} :
    ∀ {forest : Forest}, (∀ s parent, ∀ node ∈ forest.nodes, P s → P (step s node.1 parent).1) →
      ∀ {parent : Decl} {s : σ}, P s → P (forest.walk step parent s).1
  | nil, _, _, _, hs => hs
  | cons decl children rest, hstep, parent, s, hs => by
    have hhere := hstep s parent (decl, children) (List.mem_cons_self ..) hs
    have hbelow : ∀ {s : σ}, P s → P (children.walk step decl s).1 :=
      walk_invariant fun s parent node hm =>
        hstep s parent node (List.mem_cons_of_mem _ (List.mem_append_left _ hm))
    have hafter : ∀ {s : σ}, P s → P (rest.walk step parent s).1 :=
      walk_invariant fun s parent node hm =>
        hstep s parent node (List.mem_cons_of_mem _ (List.mem_append_right _ hm))
    simp only [walk]
    generalize step s decl parent = result at hhere
    obtain ⟨s₁, answer⟩ := result
    cases answer with
    | error e => exact hhere
    | ok d =>
      cases d with
      | stop => exact hhere
      | pass => exact hafter hhere
      | enter =>
        have hinner := hbelow hhere
        simp only
        generalize children.walk step decl s₁ = below at hinner
        obtain ⟨s₂, answer⟩ := below
        cases answer with
        | error e => exact hinner
        | ok finished =>
          cases finished with
          | false => exact hinner
          | true => exact hafter hinner

/-- A step that does the same to a view of the state as another one walks the same way. -/
theorem walk_view {step : WalkStep σ ε} {step' : WalkStep τ ε} (view : σ → τ)
    (h : ∀ s decl parent, step' (view s) decl parent = (view (step s decl parent).1, (step s decl parent).2)) :
    ∀ (forest : Forest) (parent : Decl) (s : σ),
      forest.walk step' parent (view s) = (view (forest.walk step parent s).1, (forest.walk step parent s).2)
  | nil, _, _ => rfl
  | cons decl children rest, parent, s => by
    simp only [walk, h]
    obtain ⟨s₁, answer⟩ := step s decl parent
    cases answer with
    | error e => rfl
    | ok d =>
      cases d with
      | stop => rfl
      | pass => exact walk_view view h rest parent s₁
      | enter =>
        simp only
        rw [walk_view view h children decl s₁]
        obtain ⟨s₂, answer⟩ := children.walk step decl s₁
        cases answer with
        | error e => rfl
        | ok finished =>
          cases finished with
          | false => rfl
          | true => exact walk_view view h rest parent s₂

end Forest

/-! ## Histories hang together -/

/-- Events one after the other lead from one database to another. -/
inductive Chained : Database → List Moment → Database → Prop where
  | nil (db : Database) : Chained db [] db
  | cons {m : Moment} {ms : List Moment} {db : Database} (further : Chained m.after.db ms db) :
      Chained m.before.db (m :: ms) db

namespace Chained

variable {db db₁ db₂ : Database} {ms ms' : List Moment}

theorem append (h : Chained db ms db₁) (h' : Chained db₁ ms' db₂) : Chained db (ms ++ ms') db₂ := by
  induction h with
  | nil => exact h'
  | cons _ ih => exact .cons (ih h')

theorem split {m : Moment} : ∀ {ms : List Moment} {db : Database}, Chained db (ms ++ m :: ms') db₂ →
    Chained db ms m.before.db ∧ Chained m.after.db ms' db₂
  | [], _, .cons further => ⟨.nil _, further⟩
  | _ :: _, _, .cons further => ⟨.cons (split further).1, (split further).2⟩

theorem invariant {P : Database → Prop} (h : Chained db ms db₁)
    (hstep : ∀ m ∈ ms, P m.before.db → P m.after.db) (hP : P db) :
    P db₁ ∧ ∀ m ∈ ms, P m.before.db ∧ P m.after.db := by
  induction h with
  | nil => exact ⟨hP, by simp⟩
  | @cons m ms db further ih =>
    have hafter := hstep m (List.mem_cons_self ..) hP
    obtain ⟨hend, hall⟩ := ih (fun m' hm => hstep m' (List.mem_cons_of_mem _ hm)) hafter
    refine ⟨hend, ?_⟩
    intro m' hm
    rcases List.mem_cons.mp hm with rfl | hm
    · exact ⟨hP, hafter⟩
    · exact hall m' hm

theorem pairwise {R : Database → Database → Prop} (trans : ∀ {a b c}, R a b → R b c → R a c)
    (hstep : ∀ m ∈ ms, R m.before.db m.after.db)
    (h : Chained db ms db₁) : (∀ m ∈ ms, R db m.after.db) ∧ (ms.map Moment.after).Pairwise fun a b => R a.db b.db := by
  induction h with
  | nil => simp
  | @cons m ms db further ih =>
    have hhere := hstep m (List.mem_cons_self ..)
    obtain ⟨hfirst, hrest⟩ := ih fun m' hm => hstep m' (List.mem_cons_of_mem _ hm)
    constructor
    · intro m' hm
      rcases List.mem_cons.mp hm with rfl | hm
      · exact hhere
      · exact trans hhere (hfirst m' hm)
    · rw [List.map_cons, List.pairwise_cons]
      refine ⟨?_, hrest⟩
      intro c hc
      obtain ⟨m', hm, rfl⟩ := List.mem_map.mp hc
      exact hfirst m' hm

/-- Where an event adds at most one record to the end of a table, each later record came at its position
by an event. -/
theorem origin {α : Type} {table : Database → List α} {Adds : Moment → α → Prop}
    (hstep : ∀ m : Moment, table m.after.db = table m.before.db ∨
      ∃ a, Adds m a ∧ table m.after.db = table m.before.db ++ [a])
    (h : Chained db ms db₁) {i : Nat} {a : α} (ha : (table db₁)[i]? = some a) :
    (table db)[i]? = some a ∨ ∃ m ∈ ms, Adds m a ∧ (table m.before.db).length = i := by
  induction h with
  | nil => exact Or.inl ha
  | @cons m ms db₁ further ih =>
    rcases ih ha with hafter | ⟨m', hm', horigin⟩
    · rcases hstep m with hsame | ⟨b, hadds, hnew⟩
      · rw [hsame] at hafter
        exact Or.inl hafter
      · rw [hnew] at hafter
        by_cases hi : i < (table m.before.db).length
        · rw [List.getElem?_append_left hi] at hafter
          exact Or.inl hafter
        · rw [List.getElem?_append_right (by omega), List.getElem?_singleton] at hafter
          split at hafter
          · cases hafter
            exact Or.inr ⟨m, List.mem_cons_self .., hadds, by omega⟩
          · cases hafter
    · exact Or.inr ⟨m', List.mem_cons_of_mem _ hm', horigin⟩

end Chained

namespace Collector

theorem watching_step (forest : Forest) (parent : Decl) (c : Collector) (ms : List Moment) (notes : List Note) :
    (forest.walk watching parent (c, ms)).1.1 = (forest.walk step parent (c, notes)).1.1 ∧
      (forest.walk watching parent (c, ms)).2 = (forest.walk step parent (c, notes)).2 := by
  have hwatching : forest.walk bareStep parent c =
      ((forest.walk watching parent (c, ms)).1.1, (forest.walk watching parent (c, ms)).2) :=
    forest.walk_view Prod.fst (fun _ _ _ => rfl) parent (c, ms)
  have hstep : forest.walk bareStep parent c =
      ((forest.walk step parent (c, notes)).1.1, (forest.walk step parent (c, notes)).2) :=
    forest.walk_view Prod.fst (fun _ _ _ => rfl) parent (c, notes)
  exact Prod.mk.inj (hwatching.symm.trans hstep)

theorem watching_collect (c : Collector) (unit : SourceUnit) :
    (unit.walk watching (c.closeTemplates, [])).1.1 = (c.collect unit).1.1 :=
  (watching_step unit.forest unit.root c.closeTemplates [] []).1

theorem chained_moments (c : Collector) (unit : SourceUnit) :
    Chained c.db (c.moments unit) (c.collect unit).1.1.db ∧
      ∀ m ∈ c.moments unit, ∃ node ∈ unit.forest.nodes, m.decl = node.1 := by
  rw [← c.watching_collect unit]
  refine Forest.walk_invariant
    (P := fun s : Collector × List Moment =>
      Chained c.db s.2 s.1.db ∧ ∀ m ∈ s.2, ∃ node ∈ unit.forest.nodes, m.decl = node.1)
    ?_ ⟨.nil _, by simp⟩
  rintro s parent node hm ⟨hchain, hdecls⟩
  constructor
  · exact hchain.append (.cons (m := ⟨s.1, node.1, parent⟩) (.nil _))
  · intro m hm'
    rcases List.mem_append.mp hm' with hm' | hm'
    · exact hdecls m hm'
    · rw [List.mem_singleton.mp hm']
      exact ⟨node, hm, rfl⟩

theorem chained_history : ∀ (units : List SourceUnit) (c : Collector),
    Chained c.db (c.history units) (c.collectAll units).db
  | [], c => .nil c.db
  | unit :: units, c => (c.chained_moments unit).1.append (chained_history units (c.collect unit).1.1)

/-- What every event does to the database, all events between an earlier and a later state of a run do. -/
theorem states_pairwise {R : Database → Database → Prop} (trans : ∀ {a b c}, R a b → R b c → R a c)
    (hstep : ∀ m : Moment, R m.before.db m.after.db) (c : Collector) (units : List SourceUnit) :
    (c.states units).Pairwise fun earlier later => R earlier.db later.db := by
  obtain ⟨hfirst, hlater⟩ := (chained_history units c).pairwise (R := R) trans fun m _ => hstep m
  refine List.pairwise_cons.mpr ⟨?_, hlater⟩
  intro state hstate
  obtain ⟨m, hm, rfl⟩ := List.mem_map.mp hstate
  exact hfirst m hm

theorem decl_of_history : ∀ {units : List SourceUnit} {c : Collector}, ∀ m ∈ c.history units,
    ∃ u ∈ units, m.decl ∈ u.decls
  | [], _, m, hm => by simp [history] at hm
  | unit :: units, c, m, hm => by
    rcases List.mem_append.mp hm with hm | hm
    · obtain ⟨node, hnode, hdecl⟩ := (c.chained_moments unit).2 m hm
      refine ⟨unit, List.mem_cons_self .., ?_⟩
      rw [hdecl]
      exact List.mem_cons_of_mem _ (List.mem_map_of_mem hnode)
    · obtain ⟨u, hu, hd⟩ := decl_of_history m hm
      exact ⟨u, List.mem_cons_of_mem _ hu, hd⟩

theorem states_invariant {P : Database → Prop} {c : Collector} {units : List SourceUnit}
    (hstep : ∀ (c' : Collector) (decl : Decl) (parent : Site), (∃ u ∈ units, decl ∈ u.decls) →
      P c'.db → P (c'.visit decl parent).collector.db)
    (hP : P c.db) : ∀ state ∈ c.states units, P state.db := by
  have h := (chained_history units c).invariant (P := P)
    (fun m hm hb => hstep m.before m.decl m.parent.site (decl_of_history m hm) hb) hP
  intro state hs
  rcases List.mem_cons.mp hs with rfl | hs
  · exact hP
  · obtain ⟨m, hm, rfl⟩ := List.mem_map.mp hs
    exact (h.2 m hm).2

/-- What every event keeps of the collector, whatever templates are open, is there before each event of a
run and after the last one. -/
theorem history_invariant {P : Collector → Prop} {units : List SourceUnit}
    (hclosed : ∀ c : Collector, P c → P c.closeTemplates)
    (hstep : ∀ (c : Collector) (decl : Decl) (parent : Site), (∃ u ∈ units, decl ∈ u.decls) →
      P c → P (c.visit decl parent).collector) :
    ∀ {us : List SourceUnit} {c : Collector}, (∀ u ∈ us, u ∈ units) → P c →
      P (c.collectAll us) ∧ ∀ m ∈ c.history us, P m.before
  | [], _, _, hP => ⟨hP, by simp [history]⟩
  | unit :: us, c, hsub, hP => by
    have hwalk : P (unit.walk watching (c.closeTemplates, [])).1.1 ∧
        ∀ m ∈ (unit.walk watching (c.closeTemplates, [])).1.2, P m.before := by
      refine Forest.walk_invariant (P := fun s : Collector × List Moment => P s.1 ∧ ∀ m ∈ s.2, P m.before)
        ?_ ⟨hclosed c hP, by simp⟩
      rintro s parent node hm ⟨hs, hms⟩
      have hdecl : node.1 ∈ unit.decls := List.mem_cons_of_mem _ (List.mem_map_of_mem hm)
      refine ⟨hstep s.1 node.1 parent.site ⟨unit, hsub unit (List.mem_cons_self ..), hdecl⟩ hs, ?_⟩
      intro m hm'
      rcases List.mem_append.mp hm' with hm' | hm'
      · exact hms m hm'
      · rw [List.mem_singleton.mp hm']
        exact hs
    rw [c.watching_collect unit] at hwalk
    obtain ⟨hend, hall⟩ := history_invariant hclosed hstep (fun u hu => hsub u (List.mem_cons_of_mem _ hu)) hwalk.1
    refine ⟨hend, ?_⟩
    intro m hm
    rcases List.mem_append.mp hm with hm | hm
    · exact hwalk.2 m hm
    · exact hall m hm

end Collector

end SymbolIndex
