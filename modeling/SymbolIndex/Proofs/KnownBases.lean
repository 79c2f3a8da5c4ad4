import SymbolIndex.Proofs.Roster

/-!
# Known bases are classes

A base specifier adds one base to its class. The written name is looked up from the scope around the class
outward, and the first class found is a known base. Nothing else writes the two lists of bases and no class
is ever taken away, so in every state of a run known bases are bases, and classes of that state.
-/

namespace SymbolIndex

/-! ## The search outward -/

namespace Scope

/-- A name as it reads from the first scopes of a path. -/
def nameIn (path : List String) (k : Nat) (name : String) : String := join (path.take k) ++ "::" ++ name

variable {α : Type}

theorem findSome?_outward_eq_none {f : List String → Option α} {path : List String} :
    (outward path).findSome? f = none ↔ ∀ k ≤ path.length, f (path.take k) = none := by
  rw [List.findSome?_eq_none_iff]
  constructor
  · intro h k _
    exact h _ ((mem_outward _ _).mpr (List.take_prefix k path))
  · intro h p hp
    have hprefix := (mem_outward _ _).mp hp
    rw [List.prefix_iff_eq_take.mp hprefix]
    exact h _ hprefix.length_le

theorem findSome?_outward_eq_some {f : List String → Option α} {path : List String} {a : α}
    (h : (outward path).findSome? f = some a) :
    ∃ k ≤ path.length, f (path.take k) = some a ∧ ∀ j, k < j → j ≤ path.length → f (path.take j) = none := by
  induction path generalizing f with
  | nil =>
    refine ⟨0, Nat.le_refl 0, ?_, ?_⟩
    · simpa [outward] using h
    · intro j hj hlen
      exact absurd hlen (Nat.not_le.mpr hj)
  | cons part path ih =>
    rw [outward, List.findSome?_append, List.findSome?_map] at h
    cases hinner : (outward path).findSome? (f ∘ (part :: ·)) with
    | some b =>
      rw [hinner] at h
      cases h
      obtain ⟨k, hk, hfound, hlonger⟩ := ih hinner
      refine ⟨k + 1, Nat.succ_le_succ hk, hfound, ?_⟩
      intro j hj hlen
      obtain ⟨i, rfl⟩ : ∃ i, j = i + 1 := ⟨j - 1, by omega⟩
      exact hlonger i (Nat.lt_of_succ_lt_succ hj) (Nat.le_of_succ_le_succ hlen)
    | none =>
      rw [hinner] at h
      refine ⟨0, Nat.zero_le _, by simpa using h, ?_⟩
      intro j hj hlen
      obtain ⟨i, rfl⟩ : ∃ i, j = i + 1 := ⟨j - 1, by omega⟩
      exact findSome?_outward_eq_none.mp hinner i (Nat.le_of_succ_le_succ hlen)

end Scope

namespace Database

def HasClass (db : Database) (fullName : String) : Prop := ∃ e ∈ db.classes, e.fullName = fullName

instance (db : Database) (fullName : String) : Decidable (db.HasClass fullName) :=
  inferInstanceAs (Decidable (∃ e ∈ db.classes, e.fullName = fullName))

theorem findClass?_eq_none_iff {db : Database} {fullName : String} :
    db.findClass? fullName = none ↔ ¬ db.HasClass fullName := by
  simp [findClass?, HasClass]

theorem HasClass.findClass? {db : Database} {fullName : String} (h : db.HasClass fullName) :
    ∃ e, db.findClass? fullName = some e :=
  Option.ne_none_iff_exists'.mp fun hnone => findClass?_eq_none_iff.mp hnone h

theorem findClass?_some {db : Database} {fullName : String} {e : ClassEntry}
    (h : db.findClass? fullName = some e) : e ∈ db.classes ∧ e.fullName = fullName :=
  ⟨List.mem_of_find?_eq_some h, by simpa using List.find?_some h⟩

/-- From within `k` scopes of a path a name is that of a class, and from within more of them it is not. -/
structure Innermost (db : Database) (path : List String) (name : String) (k : Nat) : Prop where
  bound : k ≤ path.length
  found : db.HasClass (Scope.nameIn path k name)
  deepest : ∀ j, k < j → j ≤ path.length → ¬ db.HasClass (Scope.nameIn path j name)

theorem hasClass_of_classLike? {db : Database} {name scope : String} {e : ClassEntry}
    (h : db.classLike? name scope = some e) : db.HasClass e.fullName := by
  unfold classLike? at h
  split at h
  · exact ⟨e, (findClass?_some h).1, rfl⟩
  · obtain ⟨parts, -, hfound⟩ := List.exists_of_findSome?_eq_some h
    exact ⟨e, (findClass?_some hfound).1, rfl⟩

section
variable {db : Database} {name scope : String} (unrooted : "::".toList.isPrefixOf name.toList = false)
include unrooted

theorem classLike?_some {e : ClassEntry} (h : db.classLike? name scope = some e) :
    ∃ k, db.Innermost (Scope.split scope) name k ∧ e.fullName = Scope.nameIn (Scope.split scope) k name := by
  rw [classLike?, unrooted] at h
  obtain ⟨k, bound, hfound, hlonger⟩ := Scope.findSome?_outward_eq_some h
  obtain ⟨hm, hname⟩ := findClass?_some hfound
  refine ⟨k, ⟨bound, ⟨e, hm, hname⟩, ?_⟩, hname⟩
  intro j hj hlen
  exact findClass?_eq_none_iff.mp (hlonger j hj hlen)

theorem classLike?_none (h : db.classLike? name scope = none) :
    ∀ k ≤ (Scope.split scope).length, ¬ db.HasClass (Scope.nameIn (Scope.split scope) k name) := by
  rw [classLike?, unrooted] at h
  intro k hk
  exact findClass?_eq_none_iff.mp (Scope.findSome?_outward_eq_none.mp h k hk)

end

end Database

/-! ## The lists of bases -/

structure BaseLists where
  fullName : String
  bases : List String
  known : List String
  deriving DecidableEq

def ClassEntry.scopesAround (e : ClassEntry) : List String := Scope.split (Scope.parent e.fullName)

def ClassEntry.baseLists (e : ClassEntry) : BaseLists := ⟨e.fullName, e.record.bases, e.record.knownBases⟩

def Database.baseLists (db : Database) : List BaseLists := db.classes.map ClassEntry.baseLists

def addBases (owner : String) (bases known : List String) (all : List BaseLists) : List BaseLists :=
  all.map fun l =>
    if l.fullName = owner then { l with bases := l.bases ++ bases, known := l.known ++ known } else l

theorem addBases_nil (owner : String) (all : List BaseLists) : addBases owner [] [] all = all := by
  simp [addBases]

theorem map_fullName_addBases (owner : String) (bases known : List String) (all : List BaseLists) :
    (addBases owner bases known all).map BaseLists.fullName = all.map BaseLists.fullName := by
  rw [addBases, List.map_map]
  apply List.map_congr_left
  intro l _
  simp only [Function.comp_apply]
  split <;> rfl

namespace Database

variable {db db' : Database}

theorem hasClass_iff {fullName : String} : db.HasClass fullName ↔ fullName ∈ db.baseLists.map BaseLists.fullName := by
  simp [HasClass, baseLists, ClassEntry.baseLists]

theorem baseLists_of_outline (ho : db'.outline = db.outline) : db'.baseLists = db.baseLists := by
  have hview : ∀ d : Database, d.outline.baseLists = d.baseLists := by
    intro d
    simp [baseLists, outline, ClassEntry.baseLists, ClassEntry.outline, ClassEntry.fullName, Class.outline]
  rw [← hview, ho, hview]

theorem baseLists_of_classes (h : db'.classes = db.classes) : db'.baseLists = db.baseLists := by
  rw [baseLists, h, baseLists]

theorem baseLists_updateClass (db : Database) (owner : String) {change : ClassEntry → ClassEntry}
    {bases known : List String}
    (h : ∀ e, (change e).baseLists = ⟨e.fullName, e.record.bases ++ bases, e.record.knownBases ++ known⟩) :
    (db.updateClass owner change).baseLists = addBases owner bases known db.baseLists := by
  simp only [baseLists, updateClass, addBases, List.map_map]
  apply List.map_congr_left
  intro e _
  have hname : e.baseLists.fullName = e.fullName := rfl
  simp only [Function.comp_apply, hname]
  split
  · exact h e
  · rfl

theorem baseLists_withBase (db : Database) (owner name : String) :
    (db.updateClass owner fun e => { e with record.bases := e.record.bases ++ [name] }).baseLists =
      addBases owner [name] [] db.baseLists := by
  apply baseLists_updateClass
  intro e
  simp [ClassEntry.baseLists, ClassEntry.fullName]

theorem baseLists_addClass (db : Database) {c : Class} (hb : c.bases = []) (hk : c.knownBases = [])
    (place : Place) (access : Access) :
    (db.addClass c place access).db.baseLists = db.baseLists ∨
      (db.addClass c place access).db.baseLists = db.baseLists ++ [⟨c.fullName, [], []⟩] := by
  unfold addClass
  split
  · left
    simp only
    have hkept : ∀ e, (redeclare e c place access).baseLists =
        ⟨e.fullName, e.record.bases ++ [], e.record.knownBases ++ []⟩ := by
      intro e
      unfold redeclare
      split <;> simp [ClassEntry.baseLists, ClassEntry.fullName]
    rw [db.baseLists_updateClass c.fullName hkept, addBases_nil]
  · right
    simp [baseLists, ClassEntry.baseLists, ClassEntry.fullName, hb, hk]

end Database

namespace Collector

variable {c : Collector} {decl : Decl} {parent : Site} {db : Database}

/-- All that can become of the lists of bases: a new class has none, and a base specifier adds one base to
the class around it. -/
inductive Bears (c : Collector) (decl : Decl) (parent : Site) : List BaseLists → Prop where
  | same : Bears c decl parent c.db.baseLists
  | newClass (fullName : String) : Bears c decl parent (c.db.baseLists ++ [⟨fullName, [], []⟩])
  | knownBase {owner base : ClassEntry} (kind : decl.kind = .baseSpecifier)
      (around : c.db.classAt? parent.place = some owner)
      (found : c.db.classLike? (baseName decl.spelling) (Scope.parent owner.fullName) = some base) :
      Bears c decl parent (addBases owner.fullName [base.fullName] [base.fullName] c.db.baseLists)
  | unknownBase {owner : ClassEntry} (kind : decl.kind = .baseSpecifier)
      (around : c.db.classAt? parent.place = some owner)
      (missed : c.db.classLike? (baseName decl.spelling) (Scope.parent owner.fullName) = none) :
      Bears c decl parent (addBases owner.fullName [baseName decl.spelling] [] c.db.baseLists)

theorem Adds.bears {owner : ClassEntry} {change : ClassEntry → ClassEntry} (h : c.Adds owner decl change)
    (around : c.db.classAt? parent.place = some owner) :
    c.Bears decl parent (c.db.updateClass owner.fullName change).baseLists := by
  -- every other child leaves the lists of its class as they are
  have hsame : (∀ e, (change e).baseLists = ⟨e.fullName, e.record.bases ++ [], e.record.knownBases ++ []⟩) →
      c.Bears decl parent (c.db.updateClass owner.fullName change).baseLists := by
    intro hchange
    rw [c.db.baseLists_updateClass owner.fullName hchange, addBases_nil]
    exact .same
  cases h with
  | base kind found =>
    rw [c.db.baseLists_updateClass owner.fullName fun _ => rfl]
    exact .knownBase kind around found
  | unknownBase kind missed =>
    rw [c.db.baseLists_withBase owner.fullName (baseName decl.spelling)]
    exact .unknownBase kind around missed
  | parameter kind => exact hsame fun e => by simp [ClassEntry.baseLists, ClassEntry.fullName]
  | access kind => exact hsame fun e => by simp [ClassEntry.baseLists, ClassEntry.fullName]
  | constructor signature kind read => exact hsame fun e => by simp [ClassEntry.baseLists, ClassEntry.fullName]
  | method signature kind read => exact hsame fun e => by simp [ClassEntry.baseLists, ClassEntry.fullName]
  | field param kind read fresh => exact hsame fun e => by simp [ClassEntry.baseLists, ClassEntry.fullName]

theorem Writes.bears (h : c.Writes decl parent db) : c.Bears decl parent db.baseLists := by
  have hsame : ∀ {db : Database}, db.classes = c.db.classes → c.Bears decl parent db.baseLists := by
    intro db hclasses
    rw [Database.baseLists_of_classes hclasses]
    exact .same
  cases h with
  | nothing => exact .same
  | ofNamespace kind named => exact hsame (by rw [Database.addNamespace_eq])
  | ofClass scope kind named context =>
    rcases c.db.baseLists_addClass (c := c.classRecord decl scope) rfl rfl decl.place decl.classKey.access with
      hknown | hnew
    · rw [hknown]
      exact .same
    · rw [hnew]
      exact .newClass _
  | ofEnum kind named =>
    apply hsame
    unfold Database.addEnum
    split <;> rfl
  | ofConstant kind => exact hsame rfl
  | ofAlias scope kind context =>
    apply hsame
    unfold Database.addType
    split <;> rfl
  | ofFunction signature kind free read =>
    apply hsame
    unfold Database.addFunction
    split <;> rfl
  | ofMember owner kind known adds => exact adds.bears known

end Collector

theorem Collector.addBase_lists (c : Collector) (owner : ClassEntry) (written : String) :
    (c.addBase owner written).answer = .ok .enter ∧
      ((∃ base, c.db.classLike? (baseName written) (Scope.parent owner.fullName) = some base ∧
          (c.addBase owner written).collector.db.baseLists =
            addBases owner.fullName [base.fullName] [base.fullName] c.db.baseLists) ∨
        (c.db.classLike? (baseName written) (Scope.parent owner.fullName) = none ∧
          (c.addBase owner written).collector.db.baseLists =
            addBases owner.fullName [baseName written] [] c.db.baseLists)) := by
  unfold addBase
  simp only
  split
  · rename_i base hbase
    exact ⟨rfl, Or.inl ⟨base, hbase, c.db.baseLists_updateClass owner.fullName fun _ => rfl⟩⟩
  · rename_i hnone
    exact ⟨rfl, Or.inr ⟨hnone, c.db.baseLists_withBase owner.fullName (baseName written)⟩⟩

/-! ## States of a run -/

/-- Known bases are bases, in the same order, and classes. -/
def BasesKnown (all : List BaseLists) : Prop :=
  ∀ l ∈ all, l.known.Sublist l.bases ∧ ∀ name ∈ l.known, name ∈ all.map BaseLists.fullName

theorem BasesKnown.newClass {all : List BaseLists} (h : BasesKnown all) (fullName : String) :
    BasesKnown (all ++ [⟨fullName, [], []⟩]) := by
  intro l hl
  rcases List.mem_append.mp hl with hl | hl
  · obtain ⟨hsub, hknown⟩ := h l hl
    refine ⟨hsub, ?_⟩
    intro name hn
    rw [List.map_append]
    exact List.mem_append_left _ (hknown name hn)
  · rw [List.mem_singleton.mp hl]
    exact ⟨List.Sublist.slnil, by simp⟩

theorem BasesKnown.addBases {all : List BaseLists} (h : BasesKnown all) (owner : String) {bases known : List String}
    (hsub : known.Sublist bases) (hknown : ∀ name ∈ known, name ∈ all.map BaseLists.fullName) :
    BasesKnown (SymbolIndex.addBases owner bases known all) := by
  intro l hl
  rw [map_fullName_addBases]
  obtain ⟨old, hold, rfl⟩ := List.mem_map.mp hl
  obtain ⟨hsub', hknown'⟩ := h old hold
  by_cases hn : old.fullName = owner
  · rw [if_pos hn]
    refine ⟨hsub'.append hsub, ?_⟩
    intro name hname
    rcases List.mem_append.mp hname with hname | hname
    · exact hknown' name hname
    · exact hknown name hname
  · rw [if_neg hn]
    exact ⟨hsub', hknown'⟩

theorem Collector.Bears.basesKnown {c : Collector} {decl : Decl} {parent : Site} {all : List BaseLists}
    (h : c.Bears decl parent all) (hc : BasesKnown c.db.baseLists) : BasesKnown all := by
  cases h with
  | same => exact hc
  | newClass fullName => exact hc.newClass fullName
  | @knownBase owner base kind around found =>
    apply hc.addBases owner.fullName (List.Sublist.refl _)
    intro name hn
    rw [List.mem_singleton.mp hn]
    exact Database.hasClass_iff.mp (Database.hasClass_of_classLike? found)
  | unknownBase kind around missed => exact hc.addBases _ (List.nil_sublist _) (by simp)

namespace Moment

structure SpecifiesBase (m : Moment) (owner : ClassEntry) : Prop where
  kind : m.decl.kind = .baseSpecifier
  counted : m.before.counts m.decl = true
  around : m.before.db.classAt? m.parent.place = some owner

structure AddsBase (m : Moment) (owner : ClassEntry) (base : String) (known : List String) : Prop where
  proceeds : m.outcome.answer = .ok .enter
  lists : m.after.db.baseLists = addBases owner.fullName [base] known m.before.db.baseLists

namespace SpecifiesBase

variable {m : Moment} {owner : ClassEntry}

theorem outcome_eq (h : m.SpecifiesBase owner) :
    m.outcome = m.before.closeTemplates.addBase owner m.decl.spelling := by
  have untaken : Collector.takes m.decl.kind = none := by
    rw [h.kind]
    rfl
  have hinner : m.decl.kind.standsAlone = false := by
    rw [h.kind]
    rfl
  have haround : m.before.closeTemplates.db.classAt? m.parent.site.place = some owner := h.around
  rw [outcome, Collector.visit_of_untaken h.counted untaken, Collector.visitDecl_of_inner _ hinner, haround]
  simp only [Collector.visitMember, h.kind]

end SpecifiesBase

end Moment

/-- In every state of a run, over any trees, known bases are bases and classes of that state. A base specifier
whose name is not rooted adds one base to its class: the name seen from the innermost scope around the class
in which it is the name of a class, which is then a known base, or the bare name if there is no such scope. -/
theorem known_bases_are_classes (base : String) (roots : List String) (units : List SourceUnit) :
    (∀ state ∈ (Collector.start base roots {}).states units, ∀ e ∈ state.db.classes,
      e.record.knownBases.Sublist e.record.bases ∧ ∀ name ∈ e.record.knownBases, state.db.HasClass name) ∧
    ∀ m ∈ (Collector.start base roots {}).history units, ∀ owner : ClassEntry, m.SpecifiesBase owner →
      "::".toList.isPrefixOf (baseName m.decl.spelling).toList = false →
        (∃ k, m.before.db.Innermost owner.scopesAround (baseName m.decl.spelling) k ∧
          m.AddsBase owner (Scope.nameIn owner.scopesAround k (baseName m.decl.spelling))
            [Scope.nameIn owner.scopesAround k (baseName m.decl.spelling)]) ∨
        ((∀ k ≤ owner.scopesAround.length,
            ¬ m.before.db.HasClass (Scope.nameIn owner.scopesAround k (baseName m.decl.spelling))) ∧
          m.AddsBase owner (baseName m.decl.spelling) []) := by
  constructor
  · have hknown : ∀ state ∈ (Collector.start base roots {}).states units, BasesKnown state.db.baseLists := by
      apply Collector.states_invariant (P := fun db => BasesKnown db.baseLists)
      · intro c decl parent _ h
        apply Collector.visit_keeps ?_ (fun _ _ hwrites hc => hwrites.bears.basesKnown hc) h
        intro db db' ho hdb
        rw [Database.baseLists_of_outline ho]
        exact hdb
      · simp [BasesKnown, Collector.start, Database.baseLists]
    intro state hstate e he
    obtain ⟨hsub, hnames⟩ := hknown state hstate e.baseLists (List.mem_map_of_mem he)
    exact ⟨hsub, fun name hn => Database.hasClass_iff.mpr (hnames name hn)⟩
  · intro m _ owner hspec unrooted
    obtain ⟨hanswer, hlists⟩ := m.before.closeTemplates.addBase_lists owner m.decl.spelling
    rw [← hspec.outcome_eq] at hanswer hlists
    rcases hlists with ⟨known, hfound, hgrown⟩ | ⟨hmissed, hgrown⟩
    · obtain ⟨k, hinner, hname⟩ := Database.classLike?_some unrooted hfound
      rw [hname] at hgrown
      exact Or.inl ⟨k, hinner, hanswer, hgrown⟩
    · exact Or.inr ⟨Database.classLike?_none unrooted hmissed, hanswer, hgrown⟩

namespace DerivedInside

def around : Decl := (Decl.wholeFile 0).within 1 .namespaceDecl "A"
def plain : Decl := around.within 2 .structDecl "Base"
def within : Decl := around.within 3 .namespaceDecl "B"
def derived : Decl := within.within 4 .structDecl "D"
def first : Decl := derived.within 5 .baseSpecifier "struct Base<int>"
def second : Decl := derived.within 6 .baseSpecifier "Other"

-- `namespace A { struct Base; namespace B { struct D : Base<int>, Other {}; } }`
def unit : SourceUnit where
  root := .wholeFile 0
  forest := .ofList [(around, .ofList [(plain, .nil),
    (within, .ofList [(derived, .ofList [(first, .nil), (second, .nil)])])])]

def events : List Moment := (Collector.start "/" [] {}).history [unit]

def entry (bases : List String) : ClassEntry where
  record := { name := "D", fullName := "::A::B::D", key := .structKey, bases := bases, knownBases := bases }
  access := .everyone
  places := [derived.place]

end DerivedInside

open DerivedInside in
theorem base_known_from_scope_around :
    ∃ m ∈ events, ∃ later ∈ events, m.decl = first ∧ later.decl = second ∧
      m.SpecifiesBase (entry []) ∧ m.before.db.Innermost ["A", "B"] "Base" 1 ∧
      m.AddsBase (entry []) "::A::Base" ["::A::Base"] ∧
      later.SpecifiesBase (entry ["::A::Base"]) ∧ later.AddsBase (entry ["::A::Base"]) "Other" [] := by
  have hm : events.get ⟨4, by decide⟩ ∈ events := List.get_mem ..
  have hlater : events.get ⟨5, by decide⟩ ∈ events := List.get_mem ..
  have hspec : (events.get ⟨4, by decide⟩).SpecifiesBase (entry []) := ⟨rfl, rfl, rfl⟩
  have hspec' : (events.get ⟨5, by decide⟩).SpecifiesBase (entry ["::A::Base"]) := ⟨rfl, rfl, rfl⟩
  obtain ⟨-, hadds⟩ := known_bases_are_classes "/" [] [unit]
  rcases hadds _ hm _ hspec rfl with ⟨k, hinner, hknown⟩ | ⟨hnone, -⟩
  · rcases hadds _ hlater _ hspec' rfl with ⟨j, hinner', -⟩ | ⟨-, hunknown⟩
    · have hmissed : ∀ j ≤ 2, ¬ (events.get ⟨5, by decide⟩).before.db.HasClass (Scope.nameIn ["A", "B"] j "Other") := by
        decide
      exact absurd hinner'.found (hmissed j hinner'.bound)
    · have honly : ∀ k ≤ 2,
          (events.get ⟨4, by decide⟩).before.db.HasClass (Scope.nameIn ["A", "B"] k "Base") → k = 1 := by
        decide
      obtain rfl := honly k hinner.bound hinner.found
      exact ⟨_, hm, _, hlater, rfl, rfl, hspec, hinner, hknown, hspec', hunknown⟩
  · exact absurd (by decide) (hnone 1 (by decide))

end SymbolIndex
