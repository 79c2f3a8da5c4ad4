import SymbolIndex.Proofs.Run

/-!
# Members come from one declaration

A class may be declared many times, in any order and in several units. Its bases, constructors and
methods are those of one of these declarations, child by child, and its origin is that one's file.
The argument needs that no class is declared inside itself: names grow on the way down a tree, as long
as every namespace stands in a scope of its own tree.
-/

namespace SymbolIndex

/-! ## Along one walk -/

theorem Walks.call_parent {forest : Forest} {parent : Decl} {c c' : Collector} {calls : List WalkCall}
    (h : Walks forest parent c calls c') :
    ∀ call ∈ calls, (call.parent = parent ∧ call.decl ∈ forest.tops) ∨
      ∃ node ∈ forest.nodes, node.1 = call.parent := by
  induction h with
  | nil => intro call hc; cases hc
  | @pass decl parent children rest _ _ _ calls _ _ _ ih =>
    intro call hc
    rcases List.mem_cons.mp hc with rfl | hc
    · exact Or.inl ⟨rfl, by simp [Forest.tops, Forest.toList]⟩
    · rcases ih call hc with ⟨hp, ht⟩ | ⟨node, hm, hn⟩
      · exact Or.inl ⟨hp, List.mem_cons_of_mem _ ht⟩
      · exact Or.inr ⟨node, List.mem_cons_of_mem _ (List.mem_append_right _ hm), hn⟩
  | @enter decl parent children rest _ _ _ _ calls₁ calls₂ _ _ _ _ ih₁ ih₂ =>
    intro call hc
    rcases List.mem_cons.mp hc with rfl | hc
    · exact Or.inl ⟨rfl, by simp [Forest.tops, Forest.toList]⟩
    · rcases List.mem_append.mp hc with hc | hc
      · rcases ih₁ call hc with ⟨hp, ht⟩ | ⟨node, hm, hn⟩
        · exact Or.inr ⟨(decl, children), List.mem_cons_self .., hp.symm⟩
        · exact Or.inr ⟨node, List.mem_cons_of_mem _ (List.mem_append_left _ hm), hn⟩
      · rcases ih₂ call hc with ⟨hp, ht⟩ | ⟨node, hm, hn⟩
        · exact Or.inl ⟨hp, List.mem_cons_of_mem _ ht⟩
        · exact Or.inr ⟨node, List.mem_cons_of_mem _ (List.mem_append_right _ hm), hn⟩

structure Digest.GrownBy (counts : Decl → Bool) (children : List Decl) (g g' : Digest) : Prop where
  fromFile : g'.fromFile = g.fromFile
  includePath : g'.includePath = g.includePath
  constructors : g'.constructors =
    g.constructors ++ (children.filter fun d => counts d && d.kind == .constructorDecl).map Decl.spelling
  methods : g'.methods = g.methods ++ (children.filter fun d => counts d && d.kind.isMethod).map Decl.spelling
  bases : ∃ added, g'.bases = g.bases ++ added ∧ List.Forall₂ StandsForBase
    ((children.filter fun d => counts d && d.kind == .baseSpecifier).map Decl.spelling) added

namespace Digest

theorem GrownBy.nil (counts : Decl → Bool) (g : Digest) : g.GrownBy counts [] g :=
  ⟨rfl, rfl, by simp, by simp, [], by simp, by simp⟩

theorem GrownBy.cons {counts : Decl → Bool} {decl : Decl} {children : List Decl} {g g₁ g₂ : Digest}
    (h : if counts decl then g.Grown decl g₁ else g₁ = g) (h' : g₁.GrownBy counts children g₂) :
    g.GrownBy counts (decl :: children) g₂ := by
  obtain ⟨added₂, hb₂, hf₂⟩ := h'.bases
  cases hc : counts decl with
  | false =>
    rw [hc] at h
    simp only [Bool.false_eq_true, if_false] at h
    subst h
    exact ⟨h'.fromFile, h'.includePath, by simp [h'.constructors, hc], by simp [h'.methods, hc], added₂, hb₂,
      by simpa [hc] using hf₂⟩
  | true =>
    rw [hc] at h
    simp only [if_true] at h
    obtain ⟨added₁, hb₁, hf₁⟩ := h.bases
    refine ⟨h'.fromFile.trans h.fromFile, h'.includePath.trans h.includePath, ?_, ?_, added₁ ++ added₂, ?_, ?_⟩
    · rw [h'.constructors, h.constructors, List.append_assoc, ← List.map_append]
      by_cases hk : decl.kind = .constructorDecl <;> simp [hc, hk]
    · rw [h'.methods, h.methods, List.append_assoc, ← List.map_append]
      by_cases hk : decl.kind.isMethod = true <;> simp [hc, hk]
    · rw [hb₂, hb₁, List.append_assoc]
    · have hsplit : ((decl :: children).filter fun d => counts d && d.kind == .baseSpecifier).map Decl.spelling =
          ([decl].filter (·.kind == .baseSpecifier)).map Decl.spelling ++
            (children.filter fun d => counts d && d.kind == .baseSpecifier).map Decl.spelling := by
        by_cases hk : decl.kind = .baseSpecifier <;> simp [hc, hk]
      rw [hsplit]
      exact List.rel_append hf₁ hf₂

end Digest

section
variable {U : Site → Prop} (hU : Terrain U) {fullName : String}
include hU

theorem Walks.fills {forest : Forest} {parent : Decl} {c c' : Collector} {calls : List WalkCall}
    (h : Walks forest parent c calls c') (hl : forest.Lies U parent.site) (hn : Named U c.db)
    (he : Entered c.db parent.site.chain) (hp : parent.site.Declares fullName)
    (hw : forest.Without fullName) {g : Digest} (hg : c.db.digest? fullName = some g) :
    ∃ g', c'.db.digest? fullName = some g' ∧ g.GrownBy c.counts forest.tops g' := by
  induction h generalizing g with
  | nil => exact ⟨g, hg, .nil _ g⟩
  | @pass decl parent children rest c c' o calls visit answer _ ih =>
    have hsit := hl.situated hU hn he
    obtain ⟨hn₁, hm₁, -⟩ := hsit.kept visit
    obtain ⟨g₁, hg₁, hgrow⟩ := hsit.digest_child hw.head hp visit answer hg
    obtain ⟨g₂, hg₂, hby⟩ := ih hl.after hn₁ (hm₁ _ he) hp hw.after hg₁
    have hcounts : o.collector.counts = c.counts := by
      have := c.visit_paths decl parent.site
      rw [visit] at this
      exact funext fun d => Collector.counts_congr this.1 this.2 d
    rw [hcounts] at hby
    exact ⟨g₂, hg₂, .cons hgrow hby⟩
  | @enter decl parent children rest c c₁ c' o calls₁ calls₂ visit answer inner _ _ ih =>
    have hsit := hl.situated hU hn he
    obtain ⟨hn₁, hm₁, hb⟩ := hsit.kept visit
    obtain ⟨hn₂, hm₂⟩ := inner.kept hU hl.below hn₁ (hb answer)
    obtain ⟨g₁, hg₁, hgrow⟩ := hsit.digest_child hw.head hp visit answer hg
    -- what is below a child belongs to other classes
    have hframe := inner.frame hU hl.below hn₁ (hb answer) hw.head hw.below
    obtain ⟨g₂, hg₂, hby⟩ := ih hl.after hn₂ (hm₂ _ (hm₁ _ he)) hp hw.after (hframe.trans hg₁)
    have hcounts : c₁.counts = c.counts := by
      have := c.visit_paths decl parent.site
      rw [visit] at this
      exact funext fun d =>
        Collector.counts_congr (inner.paths.1.trans this.1) (inner.paths.2.trans this.2) d
    rw [hcounts] at hby
    exact ⟨g₂, hg₂, .cons hgrow hby⟩

end

/-! ## Accounts

Between two events outside all declarations of a class, the class is empty and nothing has been added
to it, or one declaration has filled it and everything added came from there. -/

structure WalkCall.AddsTo (call : WalkCall) (counts : Decl → Bool) (fullName : String) : Prop where
  parent : call.parent.site.Declares fullName
  counted : counts call.decl = true
  fills : call.decl.kind.fills = true

/-- A declaration with its children fills a class, and nothing else does. -/
structure FilledBy (counts : Decl → Bool) (fullName : String) (calls : List WalkCall) (g : Digest) (c : Collector)
    (decl : Decl) (children : Forest) : Prop where
  declares : decl.site.Declares fullName
  entered : ∃ parent, ⟨decl, parent, some .enter⟩ ∈ calls
  members : (Digest.fresh c decl).GrownBy counts children.tops g
  only : ∀ call ∈ calls, call.AddsTo counts fullName → call.parent = decl

/-- The account of a class after the given calls, over forests with the given declarations. -/
def Account (nodes : List (Decl × Forest)) (fullName : String) (calls : List WalkCall) (c : Collector) : Prop :=
  ((∀ g, c.db.digest? fullName = some g → g.isEmpty = true) ∧
    ∀ call ∈ calls, ¬ call.AddsTo c.counts fullName) ∨
  ∃ g, c.db.digest? fullName = some g ∧ g.isEmpty = false ∧
    ∃ node ∈ nodes, FilledBy c.counts fullName calls g c node.1 node.2

/-- Nothing below a declaration of a class declares it again. -/
def Forest.Unnested (forest : Forest) (fullName : String) : Prop :=
  ∀ node ∈ forest.nodes, node.1.site.Declares fullName → node.2.Without fullName

namespace Forest.Unnested

variable {decl : Decl} {children rest : Forest} {fullName : String}

theorem head (h : (cons decl children rest).Unnested fullName) (hd : decl.site.Declares fullName) :
    children.Without fullName :=
  h (decl, children) (List.mem_cons_self ..) hd

theorem below (h : (cons decl children rest).Unnested fullName) : children.Unnested fullName :=
  fun node hm => h node (List.mem_cons_of_mem _ (List.mem_append_left _ hm))

theorem after (h : (cons decl children rest).Unnested fullName) : rest.Unnested fullName :=
  fun node hm => h node (List.mem_cons_of_mem _ (List.mem_append_right _ hm))

end Forest.Unnested

theorem Digest.fresh_congr {c c' : Collector} (hb : c'.base = c.base) (hr : c'.roots = c.roots) (decl : Decl) :
    Digest.fresh c' decl = Digest.fresh c decl := by
  simp [fresh, Collector.fileOf, Collector.includePath, Collector.rootOf?, hb, hr]

theorem Account.append {nodes : List (Decl × Forest)} {fullName : String} {calls new : List WalkCall}
    {c c' : Collector} (h : Account nodes fullName calls c) (hb : c'.base = c.base) (hr : c'.roots = c.roots)
    (hg : c'.db.digest? fullName = c.db.digest? fullName)
    (hnew : ∀ call ∈ new, ¬ call.parent.site.Declares fullName) :
    Account nodes fullName (calls ++ new) c' := by
  have hcounts : c'.counts = c.counts := funext fun d => Collector.counts_congr hb hr d
  rcases h with ⟨hempty, hnone⟩ | ⟨g, hg', hfull, node, hm, hfill⟩
  · refine Or.inl ⟨by rw [hg]; exact hempty, fun call hc => ?_⟩
    rcases List.mem_append.mp hc with hc | hc
    · rw [hcounts]
      exact hnone call hc
    · exact fun hadd => hnew call hc hadd.parent
  · refine Or.inr ⟨g, hg.trans hg', hfull, node, hm, hfill.declares, ?_, ?_, fun call hc hadd => ?_⟩
    · obtain ⟨parent, hp⟩ := hfill.entered
      exact ⟨parent, List.mem_append_left _ hp⟩
    · rw [hcounts, Digest.fresh_congr hb hr]
      exact hfill.members
    · rcases List.mem_append.mp hc with hc | hc
      · exact hfill.only call hc (hcounts ▸ hadd)
      · exact absurd hadd.parent (hnew call hc)

theorem Digest.GrownBy.isEmpty_eq_false {counts : Decl → Bool} {children : List Decl} {g g' : Digest}
    (h : g.GrownBy counts children g') {child : Decl} (hm : child ∈ children) (hc : counts child = true)
    (hf : child.kind.fills = true) : g'.isEmpty = false := by
  by_contra hempty
  simp only [isEmpty, Bool.not_eq_false, Bool.and_eq_true, List.isEmpty_iff] at hempty
  obtain ⟨⟨hk, hmeth⟩, hb⟩ := hempty
  obtain ⟨added, hadd, hall⟩ := h.bases
  rw [h.constructors, List.append_eq_nil_iff, List.map_eq_nil_iff, List.filter_eq_nil_iff] at hk
  rw [h.methods, List.append_eq_nil_iff, List.map_eq_nil_iff, List.filter_eq_nil_iff] at hmeth
  rw [hadd, List.append_eq_nil_iff] at hb
  rw [hb.2, List.forall₂_nil_right_iff, List.map_eq_nil_iff, List.filter_eq_nil_iff] at hall
  have h1 := hk.2 child hm
  have h2 := hmeth.2 child hm
  have h3 := hall child hm
  simp [hc] at h1 h2 h3
  simp [NodeKind.fills, h1, h2, h3] at hf

theorem Account.of_grown {nodes : List (Decl × Forest)} {fullName : String} {calls : List WalkCall} {c : Collector}
    {decl : Decl} {children : Forest} {g : Digest} (hd : decl.site.Declares fullName)
    (hm : (decl, children) ∈ nodes) (hentered : ∃ parent, ⟨decl, parent, some .enter⟩ ∈ calls)
    (hg : c.db.digest? fullName = some g) (hgrow : (Digest.fresh c decl).GrownBy c.counts children.tops g)
    (hadds : ∀ call ∈ calls, call.AddsTo c.counts fullName → call.parent = decl ∧ call.decl ∈ children.tops) :
    Account nodes fullName calls c := by
  cases hfull : g.isEmpty with
  | true =>
    refine Or.inl ⟨fun g' hg' => ?_, fun call hc hadd => ?_⟩
    · rw [hg] at hg'
      cases hg'
      exact hfull
    · have := hgrow.isEmpty_eq_false (hadds call hc hadd).2 hadd.counted hadd.fills
      rw [hfull] at this
      cases this
  | false =>
    refine Or.inr ⟨g, hg, hfull, (decl, children), hm, hd, hentered, hgrow, ?_⟩
    exact fun call hc hadd => (hadds call hc hadd).1

theorem Account.none_added {nodes : List (Decl × Forest)} {fullName : String} {calls : List WalkCall} {c : Collector}
    (h : Account nodes fullName calls c) (hempty : ∀ g, c.db.digest? fullName = some g → g.isEmpty = true) :
    ∀ call ∈ calls, ¬ call.AddsTo c.counts fullName := by
  rcases h with ⟨-, hnone⟩ | ⟨g, hg, hfull, -⟩
  · exact hnone
  · rw [hempty g hg] at hfull
    cases hfull

theorem Walks.adds_at_tops {children : Forest} {decl : Decl} {c c' : Collector} {calls : List WalkCall}
    (h : Walks children decl c calls c') {fullName : String} (hw : children.Without fullName) {counts : Decl → Bool} :
    ∀ call ∈ calls, call.AddsTo counts fullName → call.parent = decl ∧ call.decl ∈ children.tops := by
  intro call hc hadd
  rcases h.call_parent call hc with h | ⟨node, hm, hnode⟩
  · exact h
  · exact absurd (hnode ▸ hadd.parent) (hw node hm)

section
variable {U : Site → Prop} (hU : Terrain U) {fullName : String}
include hU

theorem Walks.account {nodes : List (Decl × Forest)} {forest : Forest} {parent : Decl} {c c' : Collector}
    {calls old : List WalkCall} (h : Walks forest parent c calls c') (hl : forest.Lies U parent.site)
    (hn : Named U c.db) (he : Entered c.db parent.site.chain) (hp : ¬ parent.site.Declares fullName)
    (hu : forest.Unnested fullName) (hsub : ∀ node ∈ forest.nodes, node ∈ nodes)
    (ha : Account nodes fullName old c) : Account nodes fullName (old ++ calls) c' := by
  induction h generalizing old with
  | nil => simpa using ha
  | @pass decl parent children rest c c' o calls visit answer _ ih =>
    have hsit := hl.situated hU hn he
    obtain ⟨hn₁, hm₁, -⟩ := hsit.kept visit
    have hpaths := c.visit_paths decl parent.site
    rw [visit] at hpaths
    have hdigest : o.collector.db.digest? fullName = c.db.digest? fullName := by
      by_cases hd : decl.site.Declares fullName
      · rcases hsit.digest_declared hd visit answer with ⟨hbad, -⟩ | ⟨-, hsame⟩
        · cases hbad
        · exact hsame
      · exact hsit.digest_frame hd hp visit
    have hacc : Account nodes fullName (old ++ [⟨decl, parent, some .pass⟩]) o.collector :=
      ha.append hpaths.1 hpaths.2 hdigest (by simpa using hp)
    have := ih hl.after hn₁ (hm₁ _ he) hp hu.after
      (fun node hm => hsub node (List.mem_cons_of_mem _ (List.mem_append_right _ hm))) hacc
    simpa using this
  | @enter decl parent children rest c c₁ c' o calls₁ calls₂ visit answer inner _ ih₁ ih₂ =>
    have hsit := hl.situated hU hn he
    obtain ⟨hn₁, hm₁, hb⟩ := hsit.kept visit
    obtain ⟨hn₂, hm₂⟩ := inner.kept hU hl.below hn₁ (hb answer)
    have hpaths := c.visit_paths decl parent.site
    rw [visit] at hpaths
    have hafter : ∀ node ∈ rest.nodes, node ∈ nodes := fun node hm =>
      hsub node (List.mem_cons_of_mem _ (List.mem_append_right _ hm))
    have hacc : Account nodes fullName (old ++ (⟨decl, parent, some .enter⟩ :: calls₁)) c₁ := by
      by_cases hd : decl.site.Declares fullName
      · rcases hsit.digest_declared hd visit answer with ⟨-, hempty, hfresh⟩ | ⟨hbad, -⟩
        · -- the class was empty, so nothing has added to it so far, and what adds to it now is at a child
          have hnone := ha.none_added hempty
          obtain ⟨g, hg, hgrow⟩ := inner.fills hU hl.below hn₁ (hb answer) hd (hu.head hd) hfresh
          have hbase := inner.paths.1.trans hpaths.1
          have hroots := inner.paths.2.trans hpaths.2
          have hcounts : o.collector.counts = c.counts :=
            funext fun d => Collector.counts_congr hpaths.1 hpaths.2 d
          have hcounts₁ : c₁.counts = c.counts := funext fun d => Collector.counts_congr hbase hroots d
          rw [hcounts, ← hcounts₁, ← Digest.fresh_congr hbase hroots] at hgrow
          apply Account.of_grown hd (hsub _ (List.mem_cons_self ..)) ⟨parent, by simp⟩ hg hgrow
          intro call hc hadd
          rcases List.mem_append.mp hc with hc | hc
          · exact absurd (hcounts₁ ▸ hadd) (hnone call hc)
          rcases List.mem_cons.mp hc with rfl | hc
          · exact absurd hadd.parent hp
          · exact inner.adds_at_tops (hu.head hd) call hc hadd
        · cases hbad
      · have hacc₁ : Account nodes fullName (old ++ [⟨decl, parent, some .enter⟩]) o.collector :=
          ha.append hpaths.1 hpaths.2 (hsit.digest_frame hd hp visit) (by simpa using hp)
        have := ih₁ hl.below hn₁ (hb answer) hd hu.below
          (fun node hm => hsub node (List.mem_cons_of_mem _ (List.mem_append_left _ hm))) hacc₁
        simpa using this
    have := ih₂ hl.after hn₂ (hm₂ _ (hm₁ _ he)) hp hu.after hafter hacc
    simpa using this

end

/-! ## Names grow on the way down -/

theorem Forest.Enclosed.longer {length : Nat} : ∀ {forest : Forest} {parent : Site}, forest.Enclosed parent →
    (∀ node ∈ forest.nodes, node.1.kind = .namespaceDecl → inScope node.1.site.outer = true) →
    (∀ node ∈ forest.nodes, node.1.kind ≠ .sourceUnit) →
    (∀ name, writtenScope parent.chain = some name → length ≤ name.length) →
    ∀ node ∈ forest.nodes, ∀ name, node.1.site.Declares name → length < name.length
  | nil, _, _, _, _, _ => fun _ hm => by simp [nodes] at hm
  | cons decl children rest, parent, henc, hns, hfiles, hlen => by
    obtain ⟨houter, hbelow, hafter⟩ := henc
    have hin : ∀ name, decl.site.Declares name → length < name.length := by
      rintro name ⟨hk, hw⟩
      rw [Site.chain, writtenScope_class _ hk, houter] at hw
      obtain ⟨scope, hs, rfl⟩ := Option.map_eq_some_iff.mp hw
      have := hlen scope hs
      simp only [String.length_append]
      have : "::".length = 2 := rfl
      omega
    have hhead : ∀ name, writtenScope decl.site.chain = some name → length ≤ name.length := by
      intro name hw
      by_cases hf : decl.site.place.kind = .sourceUnit
      · exact absurd hf (hfiles (decl, children) (List.mem_cons_self ..))
      by_cases hl : decl.site.place.kind = .linkageSpec
      · rw [Site.chain, writtenScope_linkage _ hl, houter] at hw
        exact hlen name hw
      by_cases hn : decl.site.place.kind = .namespaceDecl
      · have hs := hns (decl, children) (List.mem_cons_self ..) hn
        rw [← isSome_writtenScope] at hs
        obtain ⟨scope, hs⟩ := Option.isSome_iff_exists.mp hs
        rw [Site.chain, writtenScope_namespace _ hn, hs] at hw
        obtain rfl := Option.some.inj hw
        have := hlen scope (houter ▸ hs)
        simp only [Option.getD_some, String.length_append]
        omega
      cases hc : decl.site.place.kind.isClass with
      | true => exact Nat.le_of_lt (hin name ⟨hc, hw⟩)
      | false =>
        rw [Site.chain, writtenScope_other _ hf hl hn hc] at hw
        cases hw
    intro node hm
    simp only [nodes, List.mem_cons, List.mem_append] at hm
    rcases hm with rfl | hm | hm
    · exact hin
    · exact hbelow.longer (fun m h => hns m (List.mem_cons_of_mem _ (List.mem_append_left _ h)))
        (fun m h => hfiles m (List.mem_cons_of_mem _ (List.mem_append_left _ h))) hhead node hm
    · exact hafter.longer (fun m h => hns m (List.mem_cons_of_mem _ (List.mem_append_right _ h)))
        (fun m h => hfiles m (List.mem_cons_of_mem _ (List.mem_append_right _ h))) hlen node hm

theorem Forest.Enclosed.below {node : Decl × Forest} : ∀ {forest : Forest} {parent : Site},
    forest.Enclosed parent → node ∈ forest.nodes →
      node.2.Enclosed node.1.site ∧ ∀ m ∈ node.2.nodes, m ∈ forest.nodes
  | nil, _, _, hm => by simp [nodes] at hm
  | cons decl children rest, parent, henc, hm => by
    obtain ⟨-, hbelow, hafter⟩ := henc
    simp only [nodes, List.mem_cons, List.mem_append] at hm ⊢
    rcases hm with rfl | hm | hm
    · exact ⟨hbelow, fun m h => Or.inr (Or.inl h)⟩
    · obtain ⟨he, hs⟩ := hbelow.below hm
      exact ⟨he, fun m h => Or.inr (Or.inl (hs m h))⟩
    · obtain ⟨he, hs⟩ := hafter.below hm
      exact ⟨he, fun m h => Or.inr (Or.inr (hs m h))⟩

theorem WellFormed.unnested {units : List SourceUnit} (wf : WellFormed units) (placed : NamespacesPlaced units)
    (files : FilesAtRoots units) {u : SourceUnit} (hu : u ∈ units) (fullName : String) :
    u.forest.Unnested fullName := by
  intro node hm hd m hmem hdm
  obtain ⟨henc, hsub⟩ := (wf.enclosed u hu).below hm
  have hlen : fullName.length < fullName.length := by
    refine henc.longer (fun k hk => ?_) (fun k hk => files u hu k (hsub k hk)) (fun name hw => ?_) m hmem fullName hdm
    · exact placed u hu k.1 (List.mem_cons_of_mem _ (List.mem_map_of_mem (hsub k hk)))
    · rw [hd.2] at hw
      exact Nat.le_of_eq (congrArg String.length (Option.some.inj hw))
  exact Nat.lt_irrefl _ hlen

/-! ## Along a run -/

theorem Records.account_of_unnested {units us : List SourceUnit} (wf : WellFormed units) {fullName : String}
    (unnested : ∀ u ∈ units, u.forest.Unnested fullName) {c c' : Collector} {calls old : List WalkCall}
    (h : Records c us calls c') (hsub : ∀ u ∈ us, u ∈ units) (hn : Named (SitesOf units) c.db)
    (ha : Account (units.flatMap (·.forest.nodes)) fullName old c) :
    Account (units.flatMap (·.forest.nodes)) fullName (old ++ calls) c' := by
  induction h generalizing old with
  | nil => simpa using ha
  | @cons c c₁ c' unit us calls calls' notes finished walk _ ih =>
    have hu : unit ∈ units := hsub unit (List.mem_cons_self ..)
    obtain ⟨-, new, hnew, hw⟩ := Walks.of_recording walk
    rw [List.nil_append] at hnew
    subst hnew
    have hroot : ¬ unit.root.site.Declares fullName := by
      rintro ⟨hk, -⟩
      have hf : unit.root.site.kind = .sourceUnit := (wf.rooted unit hu).1
      simp [hf, NodeKind.isClass] at hk
    have hclosed : Account (units.flatMap (·.forest.nodes)) fullName (old ++ []) c.closeTemplates :=
      ha.append rfl rfl rfl (by simp)
    have hacc := hw.account wf.terrain (wf.lies hu) hn (wf.entered_root hu _) hroot
      (unnested unit hu) (fun node hm => List.mem_flatMap.mpr ⟨unit, hu, hm⟩) hclosed
    have hn₁ := (hw.kept wf.terrain (wf.lies hu) hn (wf.entered_root hu _)).1
    have := ih (fun u hm => hsub u (List.mem_cons_of_mem _ hm)) hn₁ hacc
    simpa using this

theorem Records.account {units us : List SourceUnit} (wf : WellFormed units) (placed : NamespacesPlaced units)
    (files : FilesAtRoots units) {c c' : Collector} {calls old : List WalkCall} {fullName : String}
    (h : Records c us calls c') (hsub : ∀ u ∈ us, u ∈ units) (hn : Named (SitesOf units) c.db)
    (ha : Account (units.flatMap (·.forest.nodes)) fullName old c) :
    Account (units.flatMap (·.forest.nodes)) fullName (old ++ calls) c' :=
  h.account_of_unnested wf (fun _ hu => wf.unnested placed files hu fullName) hsub hn ha

theorem Records.unique {us : List SourceUnit} {c c' : Collector} {calls : List WalkCall}
    (h : Records c us calls c') (hu : c.db.UniqueClasses) : c'.db.UniqueClasses := by
  induction h with
  | nil => exact hu
  | cons walk _ ih =>
    obtain ⟨-, new, -, hw⟩ := Walks.of_recording walk
    exact ih (hw.invariant Database.UniqueClasses.visit hu)

/-- **Members come from one declaration.** After any run, a class that is not empty has been filled by
one of its declarations: constructors, methods and bases are that declaration's counted children, one
entry for each and in order, its origin is that declaration's file, and no call at a child of any other
declaration of the class has added to it. -/
theorem members_from_one_declaration {base : String} {roots : List String} {units : List SourceUnit}
    {calls : List WalkCall} {c : Collector} (wf : WellFormed units) (placed : NamespacesPlaced units)
    (files : FilesAtRoots units) (run : Records (.start base roots {}) units calls c) {entry : ClassEntry}
    (known : entry ∈ c.db.classes) (full : entry.record.isEmpty = false) :
    ∃ unit ∈ units, ∃ decl children, (decl, children) ∈ unit.forest.nodes ∧
      decl.site.Declares entry.fullName ∧ (∃ parent, ⟨decl, parent, some .enter⟩ ∈ calls) ∧
      entry.record.constructors.map Method.name =
        (children.tops.filter fun d => c.counts d && d.kind == .constructorDecl).map Decl.spelling ∧
      entry.record.methods.map Method.name =
        (children.tops.filter fun d => c.counts d && d.kind.isMethod).map Decl.spelling ∧
      List.Forall₂ StandsForBase
        ((children.tops.filter fun d => c.counts d && d.kind == .baseSpecifier).map Decl.spelling)
        entry.record.bases ∧
      entry.record.fromFile = c.fileOf decl ∧ entry.record.includePath = c.includePath (c.fileOf decl) ∧
      ∀ call ∈ calls, call.AddsTo c.counts entry.fullName → call.parent = decl := by
  have hstart : Account (units.flatMap (·.forest.nodes)) entry.fullName [] (.start base roots {}) :=
    Or.inl ⟨(fun g hg => by cases hg), (fun call hc => by cases hc)⟩
  have hacc := run.account wf placed files (fun _ h => h) (Named.empty _ base roots) hstart
  have hdigest : c.db.digest? entry.fullName = some entry.digest := by
    have hunique := run.unique (by simp [Collector.start, Database.UniqueClasses, Database.classMarks])
    rw [Database.digest?, hunique.findClass? known]
    rfl
  rcases hacc with ⟨hempty, -⟩ | ⟨g, hg, -, node, hm, hfill⟩
  · have := hempty _ hdigest
    rw [ClassEntry.digest_isEmpty, full] at this
    cases this
  · rw [hdigest] at hg
    obtain rfl := Option.some.inj hg
    obtain ⟨unit, hu, hm⟩ := List.mem_flatMap.mp hm
    obtain ⟨added, hadded, hbases⟩ := hfill.members.bases
    refine ⟨unit, hu, node.1, node.2, hm, hfill.declares, by simpa using hfill.entered,
      hfill.members.constructors, hfill.members.methods, ?_, hfill.members.fromFile, hfill.members.includePath,
      by simpa using hfill.only⟩
    have : entry.record.bases = added := hadded
    rw [this]
    exact hbases

/-! ## A class declared three times -/

namespace Redeclared

def outer : Decl := (Decl.wholeFile 0).within 1 .namespaceDecl "N"
def forward : Decl := outer.within 2 .structDecl "A"
def filled : Decl := outer.within 3 .structDecl "A"
def repeated : Decl := outer.within 4 .structDecl "A"

-- `namespace N { struct A; struct A : Base { void f(); }; struct A { void g(); }; }`
def unit : SourceUnit where
  root := .wholeFile 0
  forest := .ofList [(outer, .ofList [(forward, .nil),
    (filled, .ofList [(filled.within 5 .baseSpecifier "Base", .nil),
      (filled.within 6 .methodDecl "f", .nil)]),
    (repeated, .ofList [(repeated.within 7 .methodDecl "g", .nil)])])]

def walked := (Collector.start "/" [] {}).collectRecording unit

end Redeclared

open Redeclared in
theorem members_of_redeclared_class :
    ∃ entry ∈ walked.1.1.1.db.classes, entry.record.isEmpty = false ∧
      ∃ decl children, (decl, children) ∈ unit.forest.nodes ∧
        ["f"] = (children.tops.filter fun d => walked.1.1.1.counts d && d.kind.isMethod).map Decl.spelling ∧
        ∀ call ∈ walked.1.2, call.AddsTo walked.1.1.1.counts "::N::A" → call.parent = decl := by
  have wf : WellFormed [unit] := by decide
  have run : Records (.start "/" [] {}) [unit] (walked.1.2 ++ []) walked.1.1.1 := .cons rfl .nil
  obtain ⟨entry, hentry⟩ : ∃ entry, walked.1.1.1.db.classes = [entry] := ⟨_, rfl⟩
  have known : entry ∈ walked.1.1.1.db.classes := by simp [hentry]
  have full : entry.record.isEmpty = false := by
    have h : walked.1.1.1.db.classes.map (·.record.isEmpty) = [false] := rfl
    simpa [hentry] using h
  have name : entry.fullName = "::N::A" := by
    have h : walked.1.1.1.db.classes.map (·.fullName) = ["::N::A"] := rfl
    simpa [hentry] using h
  have methods : entry.record.methods.map Method.name = ["f"] := by
    have h : walked.1.1.1.db.classes.map (·.record.methods.map Method.name) = [["f"]] := rfl
    simpa [hentry] using h
  obtain ⟨u, hu, decl, children, hnode, -, -, -, hmethods, -, -, -, honly⟩ :=
    members_from_one_declaration wf (by decide) (by decide) run known full
  obtain rfl : u = unit := by simpa using hu
  rw [methods] at hmethods
  exact ⟨entry, known, full, decl, children, hnode, hmethods, by simpa [name] using honly⟩

/-! ## A class declared inside itself

Below a union, a linkage specification is in no known scope, so a namespace in it counts as global; a
second node of a whole file is a global scope of its own. Either lets a class be declared inside
itself, and then its record mixes the members of both declarations. -/

namespace Nested

def outer : Decl := (Decl.wholeFile 0).within 1 .namespaceDecl "N"
def whole : Decl := outer.within 2 .structDecl "A"
def tagged : Decl := whole.within 3 .unionDecl "u"
def linkage : Decl := tagged.within 4 .linkageSpec ""
def subfile : Decl := whole.within 4 .sourceUnit ""

-- `namespace N { struct A { void g(); }; }`, inside some declaration.
def again (around : Decl) : Forest :=
  let inner := around.within 5 .namespaceDecl "N"
  let part := inner.within 6 .structDecl "A"
  .ofList [(inner, .ofList [(part, .ofList [(part.within 7 .methodDecl "g", .nil)])])]

-- `N::A` with the given declaration and then a method `f`.
def unitWith (decl : Decl) (children : Forest) : SourceUnit where
  root := .wholeFile 0
  forest := .ofList [(outer, .ofList [(whole, .ofList [(decl, children),
    (whole.within 8 .methodDecl "f", .nil)])])]

def belowUnion : SourceUnit := unitWith tagged (.ofList [(linkage, again linkage)])
def belowFile : SourceUnit := unitWith subfile (again subfile)

/-- The record that a walk of the unit leaves has methods that are not those of any one declaration. -/
def Mixes (unit : SourceUnit) : Prop :=
  WellFormed [unit] ∧ NamespacesDirect [unit] ∧
    ∃ c calls, Records (.start "/" [] {}) [unit] calls c ∧
      ∃ entry ∈ c.db.classes, entry.record.isEmpty = false ∧ entry.record.methods.map Method.name = ["g", "f"] ∧
        ∀ node ∈ unit.forest.nodes,
          (node.2.tops.filter fun d => c.counts d && d.kind.isMethod).map Decl.spelling ≠ ["g", "f"]

end Nested

open Nested in
theorem members_from_two_declarations : Mixes belowUnion ∧ Mixes belowFile := by
  constructor
  all_goals
    refine ⟨by decide, by decide, _, _, .cons rfl .nil,
      _, List.mem_singleton.mpr rfl, rfl, rfl, by decide⟩

end SymbolIndex
