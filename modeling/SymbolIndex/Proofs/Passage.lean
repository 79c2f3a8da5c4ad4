import SymbolIndex.Proofs.Digest

/-!
# Walks as a relation

A walk that runs through is a derivation over the forest, with the list of its calls. The states that
a walk passes through, finished or not, are a relation too. Proofs about whole runs go by induction
on these.
-/

namespace SymbolIndex

namespace Forest

/-- Every declaration of a forest with the forest below it, in preorder. -/
def nodes : Forest → List (Decl × Forest)
  | nil => []
  | cons decl children rest => (decl, children) :: (children.nodes ++ rest.nodes)

/-- The semantic chain of every declaration is that of the declaration around it. -/
def Enclosed : Forest → Site → Prop
  | nil, _ => True
  | cons decl children rest, parent =>
    decl.site.outer = parent.chain ∧ children.Enclosed decl.site ∧ rest.Enclosed parent

instance decidableEnclosed : (forest : Forest) → (parent : Site) → Decidable (forest.Enclosed parent)
  | nil, _ => inferInstanceAs (Decidable True)
  | cons decl children rest, parent =>
    have := decidableEnclosed children decl.site
    have := decidableEnclosed rest parent
    inferInstanceAs (Decidable (decl.site.outer = parent.chain ∧ children.Enclosed decl.site ∧
      rest.Enclosed parent))

theorem Enclosed.outer {node : Decl × Forest} : ∀ {forest : Forest} {parent : Site}, forest.Enclosed parent →
    node ∈ forest.nodes →
      node.1.site.outer = parent.chain ∨ ∃ m ∈ forest.nodes, node.1.site.outer = m.1.site.chain
  | nil, _, _, hm => by simp [nodes] at hm
  | cons decl children rest, parent, h, hm => by
    obtain ⟨hd, hc, hr⟩ := h
    simp only [nodes, List.mem_cons, List.mem_append] at hm ⊢
    rcases hm with rfl | hm | hm
    · exact Or.inl hd
    · rcases hc.outer hm with h | ⟨m, hmem, h⟩
      · exact Or.inr ⟨(decl, children), Or.inl rfl, h⟩
      · exact Or.inr ⟨m, Or.inr (Or.inl hmem), h⟩
    · rcases hr.outer hm with h | ⟨m, hmem, h⟩
      · exact Or.inl h
      · exact Or.inr ⟨m, Or.inr (Or.inr hmem), h⟩

theorem walk_recording {σ ε : Type} (step : WalkStep σ ε) : ∀ (forest : Forest) (parent : Decl) (s : σ)
    (calls : List WalkCall), ∃ calls', forest.walk (recording step) parent (s, calls) =
      (((forest.walk step parent s).1, calls'), (forest.walk step parent s).2)
  | nil, _, _, calls => ⟨calls, rfl⟩
  | cons decl children rest, parent, s, calls => by
    simp only [walk, recording]
    obtain ⟨s₁, answer⟩ := step s decl parent
    cases answer with
    | error e => exact ⟨_, rfl⟩
    | ok d =>
      cases d with
      | stop => exact ⟨_, rfl⟩
      | pass => exact walk_recording step rest parent s₁ _
      | enter =>
        simp only
        obtain ⟨calls₁, hbelow⟩ := walk_recording step children decl s₁
          (calls ++ [⟨decl, parent, some .enter⟩])
        simp only [Except.toOption]
        rw [hbelow]
        obtain ⟨s₂, below⟩ := children.walk step decl s₁
        cases below with
        | error e => exact ⟨_, rfl⟩
        | ok finished =>
          cases finished with
          | false => exact ⟨_, rfl⟩
          | true => exact walk_recording step rest parent s₂ _

end Forest

/-- A walk of the collector that runs through, with its calls. -/
inductive Walks : Forest → Decl → Collector → List WalkCall → Collector → Prop where
  | nil {parent : Decl} {c : Collector} : Walks .nil parent c [] c
  | pass {decl parent : Decl} {children rest : Forest} {c c' : Collector} {o : Outcome} {calls : List WalkCall}
      (visit : c.visit decl parent.site = o) (answer : o.answer = .ok .pass)
      (further : Walks rest parent o.collector calls c') :
      Walks (.cons decl children rest) parent c (⟨decl, parent, some .pass⟩ :: calls) c'
  | enter {decl parent : Decl} {children rest : Forest} {c c₁ c' : Collector} {o : Outcome}
      {calls₁ calls₂ : List WalkCall} (visit : c.visit decl parent.site = o) (answer : o.answer = .ok .enter)
      (inner : Walks children decl o.collector calls₁ c₁) (further : Walks rest parent c₁ calls₂ c') :
      Walks (.cons decl children rest) parent c (⟨decl, parent, some .enter⟩ :: (calls₁ ++ calls₂)) c'

inductive Passes : Forest → Decl → Collector → Collector → Prop where
  | start {forest : Forest} {parent : Decl} {c : Collector} : Passes forest parent c c
  | event {decl parent : Decl} {children rest : Forest} {c : Collector} {o : Outcome}
      (visit : c.visit decl parent.site = o) : Passes (.cons decl children rest) parent c o.collector
  | pass {decl parent : Decl} {children rest : Forest} {c c' : Collector} {o : Outcome}
      (visit : c.visit decl parent.site = o) (answer : o.answer = .ok .pass)
      (further : Passes rest parent o.collector c') : Passes (.cons decl children rest) parent c c'
  | inside {decl parent : Decl} {children rest : Forest} {c c' : Collector} {o : Outcome}
      (visit : c.visit decl parent.site = o) (answer : o.answer = .ok .enter)
      (inner : Passes children decl o.collector c') : Passes (.cons decl children rest) parent c c'
  | enter {decl parent : Decl} {children rest : Forest} {c c₁ c' : Collector} {o : Outcome}
      {calls : List WalkCall} (visit : c.visit decl parent.site = o) (answer : o.answer = .ok .enter)
      (inner : Walks children decl o.collector calls c₁) (further : Passes rest parent c₁ c') :
      Passes (.cons decl children rest) parent c c'

namespace Walks

theorem of_recording : ∀ {forest : Forest} {parent : Decl} {c c' : Collector} {notes notes' : List Note}
    {calls calls' : List WalkCall} {finished : Bool},
    forest.walk (recording Collector.step) parent ((c, notes), calls) = (((c', notes'), calls'), .ok finished) →
      finished = true ∧ ∃ new, calls' = calls ++ new ∧ Walks forest parent c new c'
  | .nil, parent, c, c', notes, notes', calls, calls', finished, h => by
    simp only [Forest.walk, Prod.mk.injEq, Except.ok.injEq] at h
    obtain ⟨⟨⟨rfl, rfl⟩, rfl⟩, rfl⟩ := h
    exact ⟨rfl, [], by simp, .nil⟩
  | .cons decl children rest, parent, c, c', notes, notes', calls, calls', finished, h => by
    simp only [Forest.walk, recording, Collector.step] at h
    generalize hv : c.visit decl parent.site = o at h
    cases ha : o.answer with
    | error e => simp [ha] at h
    | ok d =>
      cases d with
      | stop => exact absurd ha (hv ▸ c.visit_not_stop decl parent.site)
      | pass =>
        simp only [ha] at h
        obtain ⟨hf, new, hnew, hw⟩ := of_recording h
        exact ⟨hf, _, by rw [hnew]; simp [Except.toOption], .pass hv ha hw⟩
      | enter =>
        simp only [ha] at h
        split at h
        · rename_i s hbelow
          obtain ⟨⟨c₁, notes₁⟩, calls₁⟩ := s
          obtain ⟨-, new₁, hnew₁, hw₁⟩ := of_recording hbelow
          obtain ⟨hf, new₂, hnew₂, hw₂⟩ := of_recording h
          refine ⟨hf, _, ?_, .enter hv ha hw₁ hw₂⟩
          rw [hnew₂, hnew₁]
          simp [Except.toOption]
        · -- a walk below that is cut short would cut this one short
          rename_i halted hbelow
          exact absurd (of_recording h).1 fun hf => hbelow _ (by rw [h, hf])

theorem of_walk {forest : Forest} {parent : Decl} {c c' : Collector} {notes notes' : List Note} {finished : Bool}
    (h : forest.walk Collector.step parent (c, notes) = ((c', notes'), .ok finished)) :
    finished = true ∧ ∃ calls, Walks forest parent c calls c' := by
  obtain ⟨calls, hrec⟩ := forest.walk_recording Collector.step parent (c, notes) []
  rw [h] at hrec
  obtain ⟨hf, new, -, hw⟩ := of_recording hrec
  exact ⟨hf, new, hw⟩

theorem walk_eq {forest : Forest} {parent : Decl} {c c' : Collector} {calls : List WalkCall}
    (h : Walks forest parent c calls c') (notes : List Note) :
    ∃ notes', forest.walk Collector.step parent (c, notes) = ((c', notes'), .ok true) := by
  induction h generalizing notes with
  | nil => exact ⟨notes, rfl⟩
  | @pass decl parent children rest c c' o calls visit answer _ ih =>
    obtain ⟨notes', h⟩ := ih (notes ++ o.notes)
    refine ⟨notes', ?_⟩
    simp only [Forest.walk, Collector.step, visit, answer]
    exact h
  | @enter decl parent children rest c c₁ c' o calls₁ calls₂ visit answer _ _ ih₁ ih₂ =>
    obtain ⟨notes₁, h₁⟩ := ih₁ (notes ++ o.notes)
    obtain ⟨notes₂, h₂⟩ := ih₂ notes₁
    refine ⟨notes₂, ?_⟩
    simp only [Forest.walk, Collector.step, visit, answer, h₁]
    exact h₂

end Walks

/-! ## Names along a walk -/

structure Forest.Lies (U : Site → Prop) (forest : Forest) (parent : Site) : Prop where
  around : U parent
  sites : ∀ node ∈ forest.nodes, U node.1.site
  enclosed : forest.Enclosed parent

namespace Forest.Lies

variable {U : Site → Prop} {decl : Decl} {children rest : Forest} {parent : Site}

theorem head (h : (cons decl children rest).Lies U parent) : U decl.site ∧ decl.site.outer = parent.chain :=
  ⟨h.sites (decl, children) (List.mem_cons_self ..), h.enclosed.1⟩

theorem below (h : (cons decl children rest).Lies U parent) : children.Lies U decl.site :=
  ⟨h.head.1, fun node hm => h.sites node (List.mem_cons_of_mem _ (List.mem_append_left _ hm)), h.enclosed.2.1⟩

theorem after (h : (cons decl children rest).Lies U parent) : rest.Lies U parent :=
  ⟨h.around, fun node hm => h.sites node (List.mem_cons_of_mem _ (List.mem_append_right _ hm)), h.enclosed.2.2⟩

theorem situated (h : (cons decl children rest).Lies U parent) (hU : Terrain U) {c : Collector}
    (hn : Named U c.db) (he : Entered c.db parent.chain) : Situated U c decl parent :=
  ⟨hU, h.head.1, h.around, h.head.2, hn, he⟩

end Forest.Lies

section
variable {U : Site → Prop} (hU : Terrain U)
include hU

theorem Walks.kept {forest : Forest} {parent : Decl} {c c' : Collector} {calls : List WalkCall}
    (h : Walks forest parent c calls c') (hl : forest.Lies U parent.site) (hn : Named U c.db)
    (he : Entered c.db parent.site.chain) :
    Named U c'.db ∧ ∀ chain, Entered c.db chain → Entered c'.db chain := by
  induction h with
  | nil => exact ⟨hn, fun _ h => h⟩
  | pass visit answer _ ih =>
    obtain ⟨hn₁, hm₁, -⟩ := (hl.situated hU hn he).kept visit
    obtain ⟨hn₂, hm₂⟩ := ih hl.after hn₁ (hm₁ _ he)
    exact ⟨hn₂, fun chain h => hm₂ chain (hm₁ chain h)⟩
  | enter visit answer _ _ ih₁ ih₂ =>
    obtain ⟨hn₁, hm₁, hb⟩ := (hl.situated hU hn he).kept visit
    obtain ⟨hn₂, hm₂⟩ := ih₁ hl.below hn₁ (hb answer)
    obtain ⟨hn₃, hm₃⟩ := ih₂ hl.after hn₂ (hm₂ _ (hm₁ _ he))
    exact ⟨hn₃, fun chain h => hm₃ chain (hm₂ chain (hm₁ chain h))⟩

section
variable {P : Database → Prop} (hstep : ∀ {c : Collector} {decl : Decl} {parent : Site}, Situated U c decl parent →
  P c.db → P (c.visit decl parent).collector.db)
include hstep

theorem Walks.keeps {forest : Forest} {parent : Decl} {c c' : Collector} {calls : List WalkCall}
    (h : Walks forest parent c calls c') (hl : forest.Lies U parent.site) (hn : Named U c.db)
    (he : Entered c.db parent.site.chain) (hP : P c.db) : P c'.db := by
  induction h with
  | nil => exact hP
  | pass visit answer _ ih =>
    have hs := hl.situated hU hn he
    obtain ⟨hn₁, hm₁, -⟩ := hs.kept visit
    exact ih hl.after hn₁ (hm₁ _ he) (visit ▸ hstep hs hP)
  | enter visit answer inner _ ih₁ ih₂ =>
    have hs := hl.situated hU hn he
    obtain ⟨hn₁, hm₁, hb⟩ := hs.kept visit
    obtain ⟨hn₂, hm₂⟩ := inner.kept hU hl.below hn₁ (hb answer)
    have hP₁ := ih₁ hl.below hn₁ (hb answer) (visit ▸ hstep hs hP)
    exact ih₂ hl.after hn₂ (hm₂ _ (hm₁ _ he)) hP₁

theorem Passes.keeps {forest : Forest} {parent : Decl} {c c' : Collector} (h : Passes forest parent c c')
    (hl : forest.Lies U parent.site) (hn : Named U c.db) (he : Entered c.db parent.site.chain) (hP : P c.db) :
    Named U c'.db ∧ P c'.db := by
  induction h with
  | start => exact ⟨hn, hP⟩
  | event visit =>
    have hs := hl.situated hU hn he
    exact ⟨(hs.kept visit).1, visit ▸ hstep hs hP⟩
  | pass visit answer _ ih =>
    have hs := hl.situated hU hn he
    obtain ⟨hn₁, hm₁, -⟩ := hs.kept visit
    exact ih hl.after hn₁ (hm₁ _ he) (visit ▸ hstep hs hP)
  | inside visit answer _ ih =>
    have hs := hl.situated hU hn he
    obtain ⟨hn₁, -, hb⟩ := hs.kept visit
    exact ih hl.below hn₁ (hb answer) (visit ▸ hstep hs hP)
  | enter visit answer inner _ ih =>
    have hs := hl.situated hU hn he
    obtain ⟨hn₁, hm₁, hb⟩ := hs.kept visit
    obtain ⟨hn₂, hm₂⟩ := inner.kept hU hl.below hn₁ (hb answer)
    have hP₁ := inner.keeps hU hstep hl.below hn₁ (hb answer) (visit ▸ hstep hs hP)
    exact ih hl.after hn₂ (hm₂ _ (hm₁ _ he)) hP₁

end

end

theorem Walks.invariant {P : Database → Prop}
    (hstep : ∀ (c : Collector) (decl : Decl) (parent : Site), P c.db → P (c.visit decl parent).collector.db)
    {forest : Forest} {parent : Decl} {c c' : Collector} {calls : List WalkCall}
    (h : Walks forest parent c calls c') (hP : P c.db) : P c'.db := by
  induction h with
  | nil => exact hP
  | @pass decl parent _ _ c _ _ _ visit _ _ ih => exact ih (visit ▸ hstep c decl parent.site hP)
  | @enter decl parent _ _ c _ _ _ _ _ visit _ _ _ ih₁ ih₂ =>
    exact ih₂ (ih₁ (visit ▸ hstep c decl parent.site hP))

theorem Walks.paths {forest : Forest} {parent : Decl} {c c' : Collector} {calls : List WalkCall}
    (h : Walks forest parent c calls c') : c'.base = c.base ∧ c'.roots = c.roots := by
  induction h with
  | nil => exact ⟨rfl, rfl⟩
  | @pass decl parent _ _ c _ o _ visit _ _ ih =>
    have hp := c.visit_paths decl parent.site
    rw [visit] at hp
    exact ⟨ih.1.trans hp.1, ih.2.trans hp.2⟩
  | @enter decl parent _ _ c _ _ o _ _ visit _ _ _ ih₁ ih₂ =>
    have hp := c.visit_paths decl parent.site
    rw [visit] at hp
    exact ⟨ih₂.1.trans (ih₁.1.trans hp.1), ih₂.2.trans (ih₁.2.trans hp.2)⟩

def Collector.counts (c : Collector) (decl : Decl) : Bool := c.includes (c.fileOf decl)

theorem Collector.counts_congr {c c' : Collector} (hb : c'.base = c.base) (hr : c'.roots = c.roots) (decl : Decl) :
    c'.counts decl = c.counts decl := by
  simp [counts, includes, rootOf?, fileOf, hb, hr]

/-! ## What a walk leaves alone -/

def Forest.Without (forest : Forest) (fullName : String) : Prop :=
  ∀ node ∈ forest.nodes, ¬ node.1.site.Declares fullName

instance (forest : Forest) (fullName : String) : Decidable (forest.Without fullName) :=
  inferInstanceAs (Decidable (∀ node ∈ forest.nodes, ¬ node.1.site.Declares fullName))

namespace Forest.Without

variable {decl : Decl} {children rest : Forest} {fullName : String}

theorem head (h : (cons decl children rest).Without fullName) : ¬ decl.site.Declares fullName :=
  h (decl, children) (List.mem_cons_self ..)

theorem below (h : (cons decl children rest).Without fullName) : children.Without fullName :=
  fun node hm => h node (List.mem_cons_of_mem _ (List.mem_append_left _ hm))

theorem after (h : (cons decl children rest).Without fullName) : rest.Without fullName :=
  fun node hm => h node (List.mem_cons_of_mem _ (List.mem_append_right _ hm))

end Forest.Without

section
variable {U : Site → Prop} (hU : Terrain U) {fullName : String}
include hU

theorem Walks.frame {forest : Forest} {parent : Decl} {c c' : Collector} {calls : List WalkCall}
    (h : Walks forest parent c calls c') (hl : forest.Lies U parent.site) (hn : Named U c.db)
    (he : Entered c.db parent.site.chain) (hp : ¬ parent.site.Declares fullName)
    (hw : forest.Without fullName) : c'.db.digest? fullName = c.db.digest? fullName := by
  induction h with
  | nil => rfl
  | pass visit answer _ ih =>
    have hsit := hl.situated hU hn he
    obtain ⟨hn₁, hm₁, -⟩ := hsit.kept visit
    rw [ih hl.after hn₁ (hm₁ _ he) hp hw.after, hsit.digest_frame hw.head hp visit]
  | enter visit answer inner _ ih₁ ih₂ =>
    have hsit := hl.situated hU hn he
    obtain ⟨hn₁, hm₁, hb⟩ := hsit.kept visit
    obtain ⟨hn₂, hm₂⟩ := inner.kept hU hl.below hn₁ (hb answer)
    rw [ih₂ hl.after hn₂ (hm₂ _ (hm₁ _ he)) hp hw.after, ih₁ hl.below hn₁ (hb answer) hw.head hw.below,
      hsit.digest_frame hw.head hp visit]

end

end SymbolIndex
