import SymbolIndex.Proofs.History

/-!
# Where events stand

Over well-formed units, every event of a run finds the scopes around its declaration registered, each
under its written name.
-/

namespace SymbolIndex

def Moment.Situated (U : Site → Prop) (m : Moment) : Prop :=
  SymbolIndex.Situated U m.before m.decl m.parent.site

/-- A walk under watch, with written names and events that found the scopes around them. -/
structure Tracked (U : Site → Prop) (s : Collector × List Moment) : Prop where
  named : Named U s.1.db
  situated : ∀ m ∈ s.2, m.Situated U

namespace Tracked

variable {U : Site → Prop} {s : Collector × List Moment}

theorem step (h : Tracked U s) {decl parent : Decl} (hs : Situated U s.1 decl parent.site) :
    Tracked U (Collector.watching s decl parent).1 ∧
      (∀ chain, Entered s.1.db chain → Entered (Collector.watching s decl parent).1.1.db chain) ∧
      ((Collector.watching s decl parent).2 = .ok .enter →
        Entered (Collector.watching s decl parent).1.1.db decl.site.chain) := by
  obtain ⟨hnamed, hmono, hbelow⟩ := hs.kept rfl
  refine ⟨⟨hnamed, ?_⟩, hmono, hbelow⟩
  intro m hm
  rcases List.mem_append.mp hm with hm | hm
  · exact h.situated m hm
  · rw [List.mem_singleton.mp hm]
    exact hs

/-- The scopes around an event are those around its parent and the parent itself, which the walk has
entered. -/
theorem walk (hU : Terrain U) : ∀ {forest : Forest} {parent : Decl} {s : Collector × List Moment},
    forest.Lies U parent.site → Tracked U s → Entered s.1.db parent.site.chain →
      Tracked U (forest.walk Collector.watching parent s).1 ∧
        ∀ chain, Entered s.1.db chain → Entered (forest.walk Collector.watching parent s).1.1.db chain
  | .nil, _, _, _, h, _ => ⟨h, fun _ he => he⟩
  | .cons decl children rest, parent, s, hl, h, he => by
    obtain ⟨h₁, hmono₁, hbelow⟩ := h.step (hl.situated hU h.named he)
    simp only [Forest.walk]
    generalize Collector.watching s decl parent = result at h₁ hmono₁ hbelow
    obtain ⟨s₁, answer⟩ := result
    have hafter : ∀ {s₂ : Collector × List Moment}, Tracked U s₂ →
        (∀ chain, Entered s.1.db chain → Entered s₂.1.db chain) →
          Tracked U (rest.walk Collector.watching parent s₂).1 ∧
            ∀ chain, Entered s.1.db chain → Entered (rest.walk Collector.watching parent s₂).1.1.db chain := by
      intro s₂ h₂ hmono₂
      obtain ⟨h₃, hmono₃⟩ := walk hU hl.after h₂ (hmono₂ _ he)
      exact ⟨h₃, fun chain hc => hmono₃ chain (hmono₂ chain hc)⟩
    cases answer with
    | error e => exact ⟨h₁, hmono₁⟩
    | ok d =>
      cases d with
      | stop => exact ⟨h₁, hmono₁⟩
      | pass => exact hafter h₁ hmono₁
      | enter =>
        obtain ⟨h₂, hmono₂⟩ := walk hU hl.below h₁ (hbelow rfl)
        have hmono : ∀ chain, Entered s.1.db chain → Entered (children.walk Collector.watching decl s₁).1.1.db chain :=
          fun chain hc => hmono₂ chain (hmono₁ chain hc)
        simp only
        generalize children.walk Collector.watching decl s₁ = below at h₂ hmono
        obtain ⟨s₂, answer⟩ := below
        cases answer with
        | error e => exact ⟨h₂, hmono⟩
        | ok finished =>
          cases finished with
          | false => exact ⟨h₂, hmono⟩
          | true => exact hafter h₂ hmono

end Tracked

theorem WellFormed.situated {units : List SourceUnit} (wf : WellFormed units) :
    ∀ {us : List SourceUnit} {c : Collector}, (∀ u ∈ us, u ∈ units) → Named (SitesOf units) c.db →
      ∀ m ∈ c.history us, m.Situated (SitesOf units)
  | [], _, _, _, m, hm => by simp [Collector.history] at hm
  | unit :: us, c, hsub, hn, m, hm => by
    have hu := hsub unit (List.mem_cons_self ..)
    have hstart : Tracked (SitesOf units) (c.closeTemplates, []) := ⟨hn, by simp⟩
    obtain ⟨htracked, -⟩ := hstart.walk wf.terrain (wf.lies hu) (wf.entered_root hu _)
    rcases List.mem_append.mp hm with hm | hm
    · exact htracked.situated m hm
    · have hn' : Named (SitesOf units) (c.collect unit).1.1.db := by
        rw [← c.watching_collect unit]
        exact htracked.named
      exact wf.situated (fun v hv => hsub v (List.mem_cons_of_mem _ hv)) hn' m hm

theorem Collector.chained_of_mem_states {c state : Collector} {units : List SourceUnit} (h : state ∈ c.states units) :
    ∃ ms, (∀ m ∈ ms, m ∈ c.history units) ∧ Chained c.db ms state.db := by
  rcases List.mem_cons.mp h with rfl | h
  · exact ⟨[], by simp, .nil _⟩
  · obtain ⟨m, hm, rfl⟩ := List.mem_map.mp h
    obtain ⟨older, newer, hcut⟩ := List.append_of_mem hm
    have hchained := chained_history units c
    rw [hcut] at hchained
    refine ⟨older ++ [m], ?_, hchained.split.1.append (.cons (.nil _))⟩
    intro m' hm'
    rw [hcut]
    rcases List.mem_append.mp hm' with hm' | hm'
    · exact List.mem_append_left _ hm'
    · rw [List.mem_singleton.mp hm']
      exact List.mem_append_right _ (List.mem_cons_self ..)

end SymbolIndex
