import SymbolIndex.Proofs.Effect

/-!
# Full names follow the tree

The collector finds the name of a scope through the places it has registered. In a tree whose
semantic chains are its own enclosing declarations, and whose places are told apart, that name is the
one written along the chain: registered scopes carry the names of the scopes around them, joined.
-/

namespace SymbolIndex

/-- The full name of the scope that a chain of places opens, read off the chain alone. A namespace in
no known scope counts as a global one. -/
def writtenScope : List Place → Option String
  | [] => none
  | place :: outer =>
    match place.kind with
    | .sourceUnit => some ""
    | .linkageSpec => writtenScope outer
    | .namespaceDecl => some ((writtenScope outer).getD "" ++ "::" ++ place.spelling)
    | kind => if kind.isClass then (writtenScope outer).map (· ++ "::" ++ place.spelling) else none

theorem writtenScope_file {place : Place} (outer : List Place) (h : place.kind = .sourceUnit) :
    writtenScope (place :: outer) = some "" := by
  simp [writtenScope, h]

theorem writtenScope_linkage {place : Place} (outer : List Place) (h : place.kind = .linkageSpec) :
    writtenScope (place :: outer) = writtenScope outer := by
  simp [writtenScope, h]

theorem writtenScope_namespace {place : Place} (outer : List Place) (h : place.kind = .namespaceDecl) :
    writtenScope (place :: outer) = some ((writtenScope outer).getD "" ++ "::" ++ place.spelling) := by
  simp [writtenScope, h]

theorem writtenScope_class {place : Place} (outer : List Place) (h : place.kind.isClass = true) :
    writtenScope (place :: outer) = (writtenScope outer).map (· ++ "::" ++ place.spelling) := by
  cases hk : place.kind <;> simp_all [writtenScope, NodeKind.isClass]

theorem writtenScope_other {place : Place} (outer : List Place) (hf : place.kind ≠ .sourceUnit)
    (hl : place.kind ≠ .linkageSpec) (hn : place.kind ≠ .namespaceDecl) (hc : place.kind.isClass = false) :
    writtenScope (place :: outer) = none := by
  cases hk : place.kind <;> simp_all [writtenScope, NodeKind.isClass]

/-! ## Marks

A mark is a full name with the places it was declared at. Namespaces and classes are marked alike. -/

abbrev Mark := String × List Place

def markAt? (marks : List Mark) (place : Place) : Option String :=
  (marks.find? fun mark => mark.2.any (place.same ·)).map Prod.fst

def addMark (name : String) (place : Place) (marks : List Mark) : List Mark :=
  if marks.any (·.1 == name) then
    marks.map fun mark => if mark.1 = name then (mark.1, mark.2 ++ [place]) else mark
  else marks ++ [(name, [place])]

theorem markAt?_isSome {marks : List Mark} {place : Place} :
    (markAt? marks place).isSome = true ↔ ∃ mark ∈ marks, ∃ p ∈ mark.2, place.same p = true := by
  simp [markAt?]

theorem mem_addMark {name : String} {place : Place} {marks : List Mark} {mark : Mark}
    (h : mark ∈ addMark name place marks) {p : Place} (hp : p ∈ mark.2) :
    (mark.1 = name ∧ p = place) ∨ ∃ old ∈ marks, old.1 = mark.1 ∧ p ∈ old.2 := by
  unfold addMark at h
  split at h
  · obtain ⟨old, hold, rfl⟩ := List.mem_map.mp h
    by_cases hn : old.1 = name
    · rw [if_pos hn] at hp ⊢
      rcases List.mem_append.mp hp with hp | hp
      · exact Or.inr ⟨old, hold, rfl, hp⟩
      · exact Or.inl ⟨hn, by simpa using hp⟩
    · rw [if_neg hn] at hp ⊢
      exact Or.inr ⟨old, hold, rfl, hp⟩
  · rcases List.mem_append.mp h with h | h
    · exact Or.inr ⟨mark, h, rfl, hp⟩
    · simp only [List.mem_singleton] at h
      subst h
      exact Or.inl ⟨rfl, by simpa using hp⟩

theorem addMark_keeps {name : String} {place p : Place} {marks : List Mark}
    (h : ∃ mark ∈ marks, p ∈ mark.2) : ∃ mark ∈ addMark name place marks, p ∈ mark.2 := by
  obtain ⟨mark, hm, hp⟩ := h
  unfold addMark
  split
  · refine ⟨_, List.mem_map.mpr ⟨mark, hm, rfl⟩, ?_⟩
    split
    · exact List.mem_append_left _ hp
    · exact hp
  · exact ⟨mark, List.mem_append_left _ hm, hp⟩

theorem addMark_marks (name : String) (place : Place) (marks : List Mark) :
    ∃ mark ∈ addMark name place marks, mark.1 = name ∧ place ∈ mark.2 := by
  unfold addMark
  split
  · rename_i h
    obtain ⟨mark, hm, hn⟩ := List.any_eq_true.mp h
    have hn : mark.1 = name := by simpa using hn
    exact ⟨_, List.mem_map.mpr ⟨mark, hm, rfl⟩, by simp [hn]⟩
  · exact ⟨(name, [place]), by simp⟩

theorem addMark_markAt?_isSome {name : String} {place p : Place} {marks : List Mark}
    (h : (markAt? marks p).isSome = true) : (markAt? (addMark name place marks) p).isSome = true := by
  obtain ⟨mark, hm, q, hq, hs⟩ := markAt?_isSome.mp h
  obtain ⟨mark', hm', hq'⟩ := addMark_keeps ⟨mark, hm, hq⟩
  exact markAt?_isSome.mpr ⟨mark', hm', q, hq', hs⟩

namespace Database

def namespaceMarks (db : Database) : List Mark := db.namespaces.map fun entry => (entry.fullName, entry.places)

def classMarks (db : Database) : List Mark := db.classes.map fun entry => (entry.fullName, entry.places)

theorem namespaceAt?_name (db : Database) (place : Place) :
    (db.namespaceAt? place).map NamespaceEntry.fullName = markAt? db.namespaceMarks place := by
  simp [markAt?, namespaceMarks, namespaceAt?, List.find?_map, Function.comp_def, NamespaceEntry.declaredAt]

theorem classAt?_name (db : Database) (place : Place) :
    (db.classAt? place).map ClassEntry.fullName = markAt? db.classMarks place := by
  simp [markAt?, classMarks, classAt?, List.find?_map, Function.comp_def, ClassEntry.declaredAt]

theorem scopeName?_cons (db : Database) (place : Place) (outer : List Place) :
    db.scopeName? (place :: outer) =
      if place.kind = .sourceUnit then some "" else if place.kind = .linkageSpec then db.scopeName? outer
      else markAt? db.namespaceMarks place <|> markAt? db.classMarks place := by
  rw [scopeName?, namespaceAt?_name, classAt?_name]

theorem namespaceMarks_addNamespace (db : Database) (name fullName : String) (place : Place) :
    (db.addNamespace name fullName place).namespaceMarks = addMark fullName place db.namespaceMarks := by
  unfold addNamespace addMark namespaceMarks
  simp only [List.any_map, Function.comp_def]
  split
  · simp only [List.map_map, List.map_inj_left, Function.comp_apply]
    intro entry _
    split <;> rfl
  · simp [NamespaceEntry.fullName]

theorem redeclare_mark (entry : ClassEntry) (c : Class) (place : Place) (access : Access) :
    (redeclare entry c place access).fullName = entry.fullName ∧
      (redeclare entry c place access).places = entry.places ++ [place] := by
  unfold redeclare
  split <;> exact ⟨rfl, rfl⟩

theorem findClass?_isSome (db : Database) (fullName : String) :
    (db.findClass? fullName).isSome = db.classMarks.any (·.1 == fullName) := by
  rw [Bool.eq_iff_iff]
  simp [findClass?, classMarks, List.any_map, Function.comp_def]

theorem classMarks_addClass (db : Database) (c : Class) (place : Place) (access : Access) :
    (db.addClass c place access).db.classMarks = addMark c.fullName place db.classMarks := by
  unfold addClass addMark
  rw [← findClass?_isSome]
  split
  · rename_i entry hentry
    simp only [hentry, Option.isSome_some, if_true, classMarks, updateClass, List.map_map, List.map_inj_left,
      Function.comp_apply]
    intro e _
    split
    · simp [redeclare_mark]
    · rfl
  · rename_i hnone
    simp [hnone, classMarks, ClassEntry.fullName]

theorem classMarks_updateClass (db : Database) (fullName : String) (change : ClassEntry → ClassEntry)
    (h : ∀ e, (change e).fullName = e.fullName ∧ (change e).places = e.places) :
    (db.updateClass fullName change).classMarks = db.classMarks := by
  simp only [classMarks, updateClass, List.map_map, List.map_inj_left, Function.comp_apply]
  intro e _
  split
  · rw [(h e).1, (h e).2]
  · rfl

theorem marks_of_outline {db db' : Database} (h : db'.outline = db.outline) :
    db'.namespaceMarks = db.namespaceMarks ∧ db'.classMarks = db.classMarks := by
  have hc : db'.classes.map ClassEntry.outline = db.classes.map ClassEntry.outline := by
    have := congrArg Database.classes h
    exact this
  have hm : ∀ d : Database, d.classMarks =
      (d.classes.map ClassEntry.outline).map fun entry => (entry.fullName, entry.places) := by
    intro d
    simp [classMarks, Function.comp_def]
  exact ⟨by rw [namespaceMarks, namespaces_of_outline h, namespaceMarks], by rw [hm, hc, hm]⟩

theorem scopeName?_of_outline {db db' : Database} (h : db'.outline = db.outline) :
    ∀ chain, db'.scopeName? chain = db.scopeName? chain
  | [] => rfl
  | place :: outer => by
    obtain ⟨hn, hc⟩ := marks_of_outline h
    rw [scopeName?_cons, scopeName?_cons, hn, hc, scopeName?_of_outline h outer]

end Database

/-! ## Sites -/

/-- A set of sites in which a place stands for one site, and what is around a site is a site again,
out to the node of a whole file. -/
structure Terrain (U : Site → Prop) : Prop where
  distinct : ∀ a b, U a → U b → a.place.same b.place = true → a = b
  outward : ∀ a, U a → a.kind ≠ .sourceUnit → ∃ b, U b ∧ a.outer = b.chain

/-- Marks on these sites are their written names, and only sites of the right kind have any. -/
def Faithful (U : Site → Prop) (fits : NodeKind → Prop) (marks : List Mark) : Prop :=
  ∀ mark ∈ marks, ∀ p ∈ mark.2, ∀ a, U a → a.place.same p = true →
    fits a.kind ∧ writtenScope a.chain = some mark.1

structure Named (U : Site → Prop) (db : Database) : Prop where
  namespaces : Faithful U (· = .namespaceDecl) db.namespaceMarks
  classes : Faithful U (·.isClass = true) db.classMarks

def Entered (db : Database) (chain : List Place) : Prop :=
  ∀ p ∈ chain, (p.kind = .namespaceDecl → (markAt? db.namespaceMarks p).isSome = true) ∧
    (p.kind.isClass = true → (markAt? db.classMarks p).isSome = true)

section
variable {U : Site → Prop} {fits : NodeKind → Prop} {marks : List Mark}

theorem Faithful.markAt? (h : Faithful U fits marks) {a : Site} (ha : U a) {name : String}
    (hm : SymbolIndex.markAt? marks a.place = some name) : fits a.kind ∧ writtenScope a.chain = some name := by
  unfold SymbolIndex.markAt? at hm
  obtain ⟨mark, hf, rfl⟩ := Option.map_eq_some_iff.mp hm
  have hs := List.find?_some hf
  simp only [List.any_eq_true] at hs
  obtain ⟨p, hp, hsame⟩ := hs
  exact h mark (List.mem_of_find?_eq_some hf) p hp a ha hsame

theorem Faithful.markAt?_none (h : Faithful U fits marks) {a : Site} (ha : U a) (hk : ¬ fits a.kind) :
    SymbolIndex.markAt? marks a.place = none := by
  cases hm : SymbolIndex.markAt? marks a.place with
  | none => rfl
  | some name => exact absurd (h.markAt? ha hm).1 hk

theorem Faithful.addMark (hU : Terrain U) (h : Faithful U fits marks) {a : Site} (ha : U a) (hk : fits a.kind)
    {name : String} (hn : writtenScope a.chain = some name) : Faithful U fits (addMark name a.place marks) := by
  intro mark hm p hp b hb hs
  rcases mem_addMark hm hp with ⟨hname, rfl⟩ | ⟨old, hold, hname, hp⟩
  · have : b = a := hU.distinct b a hb ha hs
    subst this
    exact ⟨hk, by rw [hn, hname]⟩
  · rw [← hname]
    exact h old hold p hp b hb hs

theorem Named.scopeName?_eq (hU : Terrain U) {db : Database} (hn : Named U db) :
    ∀ (chain : List Place) (a : Site), U a → a.chain = chain → Entered db chain →
      db.scopeName? chain = writtenScope chain
  | [], a, _, hc, _ => by simp [Site.chain] at hc
  | place :: outer, a, ha, hc, he => by
    obtain ⟨rfl, rfl⟩ : a.place = place ∧ a.outer = outer := by simpa [Site.chain] using hc
    have hmark := he a.place (by simp)
    rw [Database.scopeName?_cons]
    by_cases hf : a.place.kind = .sourceUnit
    · rw [if_pos hf, writtenScope_file _ hf]
    rw [if_neg hf]
    by_cases hl : a.place.kind = .linkageSpec
    · -- the scope is the one around, so the induction goes outward along the chain
      rw [if_pos hl, writtenScope_linkage _ hl]
      obtain ⟨b, hb, hob⟩ := hU.outward a ha hf
      exact Named.scopeName?_eq hU hn a.outer b hb hob.symm fun p hp => he p (by simp [hp])
    rw [if_neg hl]
    by_cases hns : a.place.kind = .namespaceDecl
    · obtain ⟨name, hname⟩ := Option.isSome_iff_exists.mp (hmark.1 hns)
      have := (hn.namespaces.markAt? ha hname).2
      rw [hname]
      exact this.symm
    have hnone := hn.namespaces.markAt?_none ha hns
    by_cases hcl : a.place.kind.isClass = true
    · obtain ⟨name, hname⟩ := Option.isSome_iff_exists.mp (hmark.2 hcl)
      have := (hn.classes.markAt? ha hname).2
      rw [hnone, hname]
      exact this.symm
    · have hcn := hn.classes.markAt?_none ha hcl
      rw [hnone, hcn, writtenScope_other _ hf hl hns (by simpa using hcl)]
      rfl

theorem Named.scope_of_within (hU : Terrain U) {c : Collector} (hn : Named U c.db) {parent : Site} (hp : U parent)
    (he : Entered c.db parent.chain) {scope : String} (h : c.classContext parent = .within scope) :
    writtenScope parent.chain = some scope := by
  unfold Collector.classContext at h
  split at h
  · rename_i hf
    cases h
    exact writtenScope_file _ hf
  · split at h
    · rename_i entry hentry
      split at h
      · cases h
        have := c.db.classAt?_name parent.place
        rw [hentry] at this
        exact (hn.classes.markAt? hp this.symm).2
      · cases h
    · split at h
      · rename_i hscope
        cases h
        rw [← hn.scopeName?_eq hU parent.chain parent hp rfl he]
        exact hscope
      · cases h

end

/-! ## Events keep names -/

theorem Entered.mono {db db' : Database} {chain : List Place} (h : Entered db chain)
    (hn : ∀ p, (markAt? db.namespaceMarks p).isSome = true → (markAt? db'.namespaceMarks p).isSome = true)
    (hc : ∀ p, (markAt? db.classMarks p).isSome = true → (markAt? db'.classMarks p).isSome = true) :
    Entered db' chain :=
  fun p hp => ⟨fun hk => hn p ((h p hp).1 hk), fun hk => hc p ((h p hp).2 hk)⟩

structure Kept (U : Site → Prop) (decl : Decl) (db db' : Database) (d : Directive) : Prop where
  named : Named U db'
  entered : ∀ chain, Entered db chain → Entered db' chain
  below : d = .enter → ∀ chain, decl.site.outer = chain → Entered db chain → Entered db' decl.site.chain

theorem Kept.of_marks {U : Site → Prop} {decl : Decl} {db db' : Database} {d : Directive} (hn : Named U db)
    (h : db'.namespaceMarks = db.namespaceMarks ∧ db'.classMarks = db.classMarks)
    (hd : d = .enter → decl.kind ≠ .namespaceDecl ∧ decl.kind.isClass = false) : Kept U decl db db' d := by
  have hc : ∀ chain, Entered db chain → Entered db' chain := by
    intro chain he
    unfold Entered
    rw [h.1, h.2]
    exact he
  refine ⟨⟨h.1 ▸ hn.namespaces, h.2 ▸ hn.classes⟩, hc, ?_⟩
  intro henter chain houter he p hp
  rcases List.mem_cons.mp hp with rfl | hp
  · have := hd henter
    exact ⟨fun hk => absurd hk this.1, fun hk => by simp [Decl.kind, Site.kind] at this; simp [this.2] at hk⟩
  · exact hc chain he p (houter ▸ hp)

theorem Kept.of_addNamespace {U : Site → Prop} (hU : Terrain U) {decl : Decl} {db : Database} (hn : Named U db)
    (hd : U decl.site) (hk : decl.kind = .namespaceDecl) {name : String}
    (hw : writtenScope decl.site.chain = some name) (d : Directive) :
    Kept U decl db (db.addNamespace decl.spelling name decl.place) d := by
  have hm := db.namespaceMarks_addNamespace decl.spelling name decl.place
  have hcl : (db.addNamespace decl.spelling name decl.place).classMarks = db.classMarks := by
    unfold Database.addNamespace
    split <;> rfl
  have hmono : ∀ chain, Entered db chain → Entered (db.addNamespace decl.spelling name decl.place) chain :=
    fun chain he => he.mono (fun p hp => by rw [hm]; exact addMark_markAt?_isSome hp) (fun p hp => by rw [hcl]; exact hp)
  refine ⟨⟨?_, hcl ▸ hn.classes⟩, hmono, ?_⟩
  · rw [hm]
    exact hn.namespaces.addMark hU hd hk hw
  · rintro - chain rfl he p hp
    rcases List.mem_cons.mp hp with rfl | hp
    · refine ⟨fun _ => ?_, fun hc => ?_⟩
      · rw [hm]
        obtain ⟨mark, hmem, -, hin⟩ := addMark_marks name decl.place db.namespaceMarks
        exact markAt?_isSome.mpr ⟨mark, hmem, _, hin, Place.same_refl _⟩
      · have hk' : decl.site.place.kind = .namespaceDecl := hk
        simp [hk', NodeKind.isClass] at hc
    · exact hmono _ he p hp

theorem Kept.of_addClass {U : Site → Prop} (hU : Terrain U) {decl : Decl} {db : Database} (hn : Named U db)
    (hd : U decl.site) (hk : decl.kind.isClass = true) {c : Class}
    (hw : writtenScope decl.site.chain = some c.fullName) (access : Access) (d : Directive) :
    Kept U decl db (db.addClass c decl.place access).db d := by
  have hm := db.classMarks_addClass c decl.place access
  have hnm : (db.addClass c decl.place access).db.namespaceMarks = db.namespaceMarks := by
    unfold Database.addClass
    split <;> rfl
  have hmono : ∀ chain, Entered db chain → Entered (db.addClass c decl.place access).db chain :=
    fun chain he => he.mono (fun p hp => by rw [hnm]; exact hp) (fun p hp => by rw [hm]; exact addMark_markAt?_isSome hp)
  refine ⟨⟨hnm ▸ hn.namespaces, ?_⟩, hmono, ?_⟩
  · rw [hm]
    exact hn.classes.addMark hU hd hk hw
  · rintro - chain rfl he p hp
    rcases List.mem_cons.mp hp with rfl | hp
    · refine ⟨fun hns => ?_, fun _ => ?_⟩
      · have hk' : decl.site.place.kind.isClass = true := hk
        simp [hns, NodeKind.isClass] at hk'
      · rw [hm]
        obtain ⟨mark, hmem, -, hin⟩ := addMark_marks c.fullName decl.place db.classMarks
        exact markAt?_isSome.mpr ⟨mark, hmem, _, hin, Place.same_refl _⟩
    · exact hmono _ he p hp

theorem Named.of_outline {U : Site → Prop} {db db' : Database} (h : db'.outline = db.outline) (hn : Named U db) :
    Named U db' :=
  ⟨(Database.marks_of_outline h).1 ▸ hn.namespaces, (Database.marks_of_outline h).2 ▸ hn.classes⟩

theorem Entered.of_outline {db db' : Database} {chain : List Place} (h : db'.outline = db.outline)
    (he : Entered db chain) : Entered db' chain := by
  unfold Entered
  rw [(Database.marks_of_outline h).1, (Database.marks_of_outline h).2]
  exact he

/-- An event at a declaration inside a scope whose surroundings are all registered. -/
structure Situated (U : Site → Prop) (c : Collector) (decl : Decl) (parent : Site) : Prop where
  terrain : Terrain U
  here : U decl.site
  around : U parent
  outer : decl.site.outer = parent.chain
  named : Named U c.db
  entered : Entered c.db parent.chain

namespace Situated

variable {U : Site → Prop} {c c' : Collector} {decl : Decl} {parent : Site}

theorem alike (h : Situated U c decl parent) (ha : c.Alike c') : Situated U c' decl parent :=
  { h with named := h.named.of_outline ha.outline, entered := h.entered.of_outline ha.outline }

theorem scopeName? (h : Situated U c decl parent) : c.db.scopeName? parent.chain = writtenScope parent.chain :=
  h.named.scopeName?_eq h.terrain parent.chain parent h.around rfl h.entered

theorem namespace_written (h : Situated U c decl parent) (hk : decl.kind = .namespaceDecl) :
    writtenScope decl.site.chain = some (c.namespaceName decl parent) := by
  rw [Site.chain, writtenScope_namespace _ hk, h.outer, Collector.namespaceName, h.scopeName?]
  rfl

theorem class_written (h : Situated U c decl parent) (hk : decl.kind.isClass = true) {scope : String}
    (hs : c.classContext parent = .within scope) :
    writtenScope decl.site.chain = some (c.classRecord decl scope).fullName := by
  rw [Site.chain, writtenScope_class _ hk, h.outer, h.named.scope_of_within h.terrain h.around h.entered hs]
  rfl

theorem kept_effect (h : Situated U c decl parent) {db : Database} {d : Directive}
    (heff : c.Effect decl parent db d) : Kept U decl c.db db d := by
  cases heff with
  | opened kind named db_eq =>
    subst db_eq
    exact .of_addNamespace h.terrain h.named h.here kind (h.namespace_written kind) _
  | declared scope kind named context db_eq d entered =>
    subst db_eq
    exact .of_addClass h.terrain h.named h.here kind (h.class_written kind context) _ _
  | member entry change kind known db_eq extended d =>
    subst db_eq
    refine .of_marks h.named ⟨rfl, Database.classMarks_updateClass _ _ _ fun e => ?_⟩ fun _ => ?_
    · exact ⟨(extended e).fullName, (extended e).places⟩
    · cases hk : decl.kind <;> simp_all [NodeKind.standsAlone, NodeKind.isClass]
  | quiet beside other d leaf =>
    refine .of_marks h.named ⟨?_, ?_⟩ leaf
    · rw [Database.namespaceMarks, beside.namespaces, Database.namespaceMarks]
    · rw [Database.classMarks, beside.classes, Database.classMarks]

theorem kept_of_outline (h : Situated U c decl parent) {db : Database} {d : Directive}
    (ho : db.outline = c.db.outline)
    (hd : d = .enter → decl.kind ≠ .namespaceDecl ∧ decl.kind.isClass = false) : Kept U decl c.db db d :=
  .of_marks h.named (Database.marks_of_outline ho) hd

theorem kept (h : Situated U c decl parent) {o : Outcome} (ho : c.visit decl parent = o) :
    Named U o.collector.db ∧ (∀ chain, Entered c.db chain → Entered o.collector.db chain) ∧
      (o.answer = .ok .enter → Entered o.collector.db decl.site.chain) := by
  -- open templates keep the marks, so each case comes down to what the declaration itself does
  have wrap : ∀ {c' : Collector} {db : Database} {d : Directive}, c.Alike c' → Kept U decl c'.db db d →
      Named U db ∧ (∀ chain, Entered c.db chain → Entered db chain) ∧
        (d = .enter → Entered db decl.site.chain) := by
    intro c' db d ha hk
    refine ⟨hk.named, fun chain he => hk.entered chain (he.of_outline ha.outline), fun hd => ?_⟩
    exact hk.below hd parent.chain h.outer (h.alike ha).entered
  rcases c.visit_cases decl parent with ⟨-, hv⟩ | ⟨-, c', d, ha, ht, hv⟩ | ⟨-, c', ha, -, -, hv⟩
  · rw [hv] at ho
    subst ho
    have := wrap (.refl c) (h.kept_of_outline (d := .pass) rfl (by simp))
    exact ⟨this.1, this.2.1, by simp [Collector.answer]⟩
  · rw [hv] at ho
    subst ho
    have hd : d = .enter → decl.kind ≠ .namespaceDecl ∧ decl.kind.isClass = false := by
      cases hk : decl.kind <;> simp_all [Collector.takes, NodeKind.isClass]
    have := wrap ha ((h.alike ha).kept_of_outline rfl hd)
    exact ⟨this.1, this.2.1, fun he => this.2.2 (by simpa [Collector.answer] using he)⟩
  · rw [hv] at ho
    cases hans : o.answer with
    | error e =>
      have hreg := c'.visitDecl_regular decl parent
      rw [ho] at hreg
      rw [hreg.failed e hans]
      have := wrap ha ((h.alike ha).kept_of_outline (d := .pass) rfl (by simp))
      exact ⟨this.1, this.2.1, by simp⟩
    | ok d =>
      have := wrap ha ((h.alike ha).kept_effect (Collector.visitDecl_effect ho hans))
      exact ⟨this.1, this.2.1, fun he => this.2.2 (by simpa using he)⟩

end Situated

end SymbolIndex
