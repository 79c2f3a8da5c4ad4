import Mathlib.Data.List.Nodup
import SymbolIndex.Proofs.Scoping

/-!
# The state of one class

The digest of a class is what its declarations decide: where it comes from, the access in force, and
the names of its bases, constructors and methods. One event changes the digest of one class at most:
a declaration of an empty class starts it afresh, and a child of a declaration adds to it.
-/

namespace SymbolIndex

structure Digest where
  access : Access
  fromFile : String
  includePath : String
  bases : List String
  constructors : List String
  methods : List String

namespace Digest

def isEmpty (g : Digest) : Bool := g.constructors.isEmpty && g.methods.isEmpty && g.bases.isEmpty

def fresh (c : Collector) (decl : Decl) : Digest :=
  { access := decl.classKey.access, fromFile := c.fileOf decl, includePath := c.includePath (c.fileOf decl),
    bases := [], constructors := [], methods := [] }

/-- What one child of a declaration adds. -/
structure Grown (decl : Decl) (g g' : Digest) : Prop where
  fromFile : g'.fromFile = g.fromFile
  includePath : g'.includePath = g.includePath
  access : g'.access = if decl.kind = .accessSpec then decl.access else g.access
  constructors : g'.constructors =
    g.constructors ++ ([decl].filter (·.kind == .constructorDecl)).map Decl.spelling
  methods : g'.methods = g.methods ++ ([decl].filter (·.kind.isMethod)).map Decl.spelling
  bases : ∃ added, g'.bases = g.bases ++ added ∧
    List.Forall₂ StandsForBase (([decl].filter (·.kind == .baseSpecifier)).map Decl.spelling) added

theorem Grown.isEmpty_eq_false {decl : Decl} {g g' : Digest} (h : g.Grown decl g') (hf : decl.kind.fills = true) :
    g'.isEmpty = false := by
  by_contra hempty
  simp only [isEmpty, Bool.not_eq_false, Bool.and_eq_true, List.isEmpty_iff] at hempty
  obtain ⟨⟨hk, hm⟩, hb⟩ := hempty
  obtain ⟨added, hadd, hall⟩ := h.bases
  rw [h.constructors, List.append_eq_nil_iff] at hk
  rw [h.methods, List.append_eq_nil_iff] at hm
  rw [hadd, List.append_eq_nil_iff] at hb
  rw [hb.2, List.forall₂_nil_right_iff] at hall
  have h1 := hk.2
  have h2 := hm.2
  simp at h1 h2 hall
  simp [NodeKind.fills, h1, h2, hall] at hf

theorem Grown.eq_of_fills {decl : Decl} {g g' : Digest} (h : g.Grown decl g') (hf : decl.kind.fills = false) :
    g' = { g with access := if decl.kind = .accessSpec then decl.access else g.access } := by
  simp only [NodeKind.fills, Bool.or_eq_false_iff] at hf
  obtain ⟨⟨hc, hm⟩, hb⟩ := hf
  obtain ⟨added, hadd, hall⟩ := h.bases
  simp only [List.filter_cons, List.filter_nil, hb, Bool.false_eq_true, if_false, List.map_nil,
    List.forall₂_nil_left_iff] at hall
  have h1 := h.constructors
  have h2 := h.methods
  simp only [List.filter_cons, List.filter_nil, hc, hm, Bool.false_eq_true, if_false, List.map_nil,
    List.append_nil] at h1 h2
  rw [hall, List.append_nil] at hadd
  have h3 := h.fromFile
  have h4 := h.includePath
  have h5 := h.access
  cases g'
  simp_all

end Digest

def ClassEntry.digest (entry : ClassEntry) : Digest :=
  { access := entry.access, fromFile := entry.record.fromFile, includePath := entry.record.includePath,
    bases := entry.record.bases, constructors := entry.record.constructors.map Method.name,
    methods := entry.record.methods.map Method.name }

theorem ClassEntry.digest_isEmpty (entry : ClassEntry) : entry.digest.isEmpty = entry.record.isEmpty := by
  simp [digest, Digest.isEmpty, Class.isEmpty]

theorem ClassEntry.digest_outline (entry : ClassEntry) : entry.outline.digest = entry.digest := by
  simp [digest, outline, Class.outline, Function.comp_def, Method.outline]

theorem Extends.grown {decl : Decl} {e e' : ClassEntry} (h : Extends decl e e') :
    Digest.Grown decl e.digest e'.digest :=
  ⟨h.fromFile, h.includePath, h.access, h.constructors, h.methods, h.bases⟩

theorem Digest.Grown.refl_of {decl : Decl} (hc : decl.kind ≠ .constructorDecl)
    (hm : decl.kind.isMethod = false) (hb : decl.kind ≠ .baseSpecifier) (ha : decl.kind ≠ .accessSpec)
    (g : Digest) : g.Grown decl g :=
  ⟨rfl, rfl, by rw [if_neg ha], by simp [hc], by simp [hm], [], by simp, by simp [hb]⟩

namespace Database

def digest? (db : Database) (fullName : String) : Option Digest := (db.findClass? fullName).map ClassEntry.digest

theorem digest?_of_outline {db db' : Database} (h : db'.outline = db.outline) (fullName : String) :
    db'.digest? fullName = db.digest? fullName := by
  have key : ∀ d : Database, d.digest? fullName = (d.outline.findClass? fullName).map ClassEntry.digest := by
    intro d
    simp [digest?, outline_findClass?, Function.comp_def, ClassEntry.digest_outline]
  rw [key, h, key]

theorem digest?_of_classes {db db' : Database} (h : db'.classes = db.classes) (fullName : String) :
    db'.digest? fullName = db.digest? fullName := by
  rw [digest?, findClass?, h]
  rfl

theorem findClass?_fullName {db : Database} {fullName : String} {entry : ClassEntry}
    (h : db.findClass? fullName = some entry) : entry.fullName = fullName := by
  simpa using List.find?_some h

theorem findClass?_updateClass (db : Database) {fullName other : String} {change : ClassEntry → ClassEntry}
    (h : ∀ e, (change e).fullName = e.fullName) :
    (db.updateClass other change).findClass? fullName =
      if fullName = other then (db.findClass? fullName).map change else db.findClass? fullName := by
  have hp : ∀ e : ClassEntry, (if e.fullName = other then change e else e).fullName = e.fullName := by
    intro e
    split
    · exact h e
    · rfl
  have hfind : (db.updateClass other change).findClass? fullName =
      (db.findClass? fullName).map fun e => if e.fullName = other then change e else e := by
    simp only [findClass?, updateClass, List.find?_map, Function.comp_def, hp]
  rw [hfind]
  cases hf : db.findClass? fullName with
  | none => simp
  | some e =>
    have := findClass?_fullName hf
    by_cases hn : fullName = other <;> simp [this, hn]

theorem findClass?_addClass (db : Database) (c : Class) (place : Place) (access : Access) (fullName : String) :
    (db.addClass c place access).db.findClass? fullName =
      if fullName = c.fullName then
        some ((db.findClass? fullName).elim ⟨c, access, [place]⟩ (redeclare · c place access))
      else db.findClass? fullName := by
  unfold addClass
  split
  · rename_i entry hentry
    rw [findClass?_updateClass db fun e => (redeclare_mark e c place access).1]
    by_cases hn : fullName = c.fullName
    · simp [hn, hentry]
    · simp [hn]
  · rename_i hnone
    by_cases hn : fullName = c.fullName
    · have : (⟨c, access, [place]⟩ : ClassEntry).fullName = c.fullName := rfl
      rw [if_pos hn, hn, hnone]
      simp only [findClass?] at hnone ⊢
      simp [List.find?_append, hnone, this]
    · have : (⟨c, access, [place]⟩ : ClassEntry).fullName ≠ fullName := fun h => hn h.symm
      rw [if_neg hn]
      simp [findClass?, List.find?_append, this]

theorem digest?_addClass (c : Collector) (decl : Decl) (scope : String) (place : Place) :
    let added := c.db.addClass (c.classRecord decl scope) place decl.classKey.access
    let fullName := (c.classRecord decl scope).fullName
    (added.entersMembers = true ∧ (∀ g, c.db.digest? fullName = some g → g.isEmpty = true) ∧
      added.db.digest? fullName = some (.fresh c decl)) ∨
    (added.entersMembers = false ∧ added.db.digest? fullName = c.db.digest? fullName) := by
  intro added fullName
  have hfind := c.db.findClass?_addClass (c.classRecord decl scope) place decl.classKey.access fullName
  rw [if_pos rfl] at hfind
  unfold digest?
  cases hf : c.db.findClass? fullName with
  | none =>
    left
    have he : added.entersMembers = true := by
      simp only [added, addClass]
      rw [hf]
    refine ⟨he, by simp, ?_⟩
    rw [hfind, hf]
    rfl
  | some entry =>
    have he : added.entersMembers = entry.record.isEmpty := by
      simp only [added, addClass]
      rw [hf]
    by_cases hempty : entry.record.isEmpty = true
    · left
      refine ⟨by rw [he, hempty], ?_, ?_⟩
      · intro g hg
        simp only [Option.map_some, Option.some.injEq] at hg
        rw [← hg, ClassEntry.digest_isEmpty, hempty]
      · rw [hfind, hf]
        have hlists := hempty
        simp only [Class.isEmpty, Bool.and_eq_true, List.isEmpty_iff] at hlists
        simp [redeclare, hempty, ClassEntry.digest, Digest.fresh, Collector.classRecord, hlists]
    · right
      refine ⟨by rw [he]; simpa using hempty, ?_⟩
      rw [hfind, hf]
      simp [redeclare, hempty, ClassEntry.digest]

end Database

/-! ## Class names are unique -/

theorem addMark_nodup {name : String} {place : Place} {marks : List Mark} (h : (marks.map Prod.fst).Nodup) :
    ((addMark name place marks).map Prod.fst).Nodup := by
  unfold addMark
  split
  · have : (marks.map fun mark => if mark.1 = name then (mark.1, mark.2 ++ [place]) else mark).map Prod.fst =
        marks.map Prod.fst := by
      rw [List.map_map]
      apply List.map_congr_left
      intro mark _
      simp only [Function.comp_apply]
      split <;> rfl
    rw [this]
    exact h
  · rename_i hnew
    rw [List.map_append, List.nodup_append]
    refine ⟨h, by simp, ?_⟩
    intro a ha b hb hab
    simp only [List.map_cons, List.map_nil, List.mem_singleton] at hb
    obtain ⟨mark, hm, rfl⟩ := List.mem_map.mp ha
    exact hnew (List.any_eq_true.mpr ⟨mark, hm, by simp [hab, hb]⟩)

namespace Database

def UniqueClasses (db : Database) : Prop := (db.classMarks.map Prod.fst).Nodup

theorem UniqueClasses.findClass? {db : Database} (h : db.UniqueClasses) {entry : ClassEntry}
    (hm : entry ∈ db.classes) : db.findClass? entry.fullName = some entry := by
  have hnames : (db.classes.map ClassEntry.fullName).Nodup := by
    have : db.classMarks.map Prod.fst = db.classes.map ClassEntry.fullName := by
      simp [classMarks, Function.comp_def]
    rw [← this]
    exact h
  cases hf : db.findClass? entry.fullName with
  | none =>
    have := List.find?_eq_none.mp hf entry hm
    simp at this
  | some found =>
    have hname := findClass?_fullName hf
    have hmem := List.mem_of_find?_eq_some hf
    rw [List.inj_on_of_nodup_map hnames hmem hm hname]

theorem UniqueClasses.effect {c : Collector} {decl : Decl} {parent : Site} {db : Database} {d : Directive}
    (h : c.db.UniqueClasses) (heff : c.Effect decl parent db d) : db.UniqueClasses := by
  unfold UniqueClasses at h ⊢
  cases heff with
  | opened kind named db_eq =>
    have : db.classMarks = c.db.classMarks := by
      rw [db_eq]
      unfold addNamespace
      split <;> rfl
    rw [this]
    exact h
  | declared scope kind named context db_eq d entered =>
    rw [db_eq, classMarks_addClass]
    exact addMark_nodup h
  | member entry change kind known db_eq extended d =>
    rw [db_eq, classMarks_updateClass _ _ _ fun e => ⟨(extended e).fullName, (extended e).places⟩]
    exact h
  | quiet beside other d leaf =>
    rw [classMarks, beside.classes]
    exact h

theorem UniqueClasses.of_outline {db db' : Database} (ho : db'.outline = db.outline) (h : db.UniqueClasses) :
    db'.UniqueClasses := by
  unfold UniqueClasses
  rw [(marks_of_outline ho).2]
  exact h

theorem UniqueClasses.visit (c : Collector) (decl : Decl) (parent : Site) (h : c.db.UniqueClasses) :
    (c.visit decl parent).collector.db.UniqueClasses :=
  Collector.visit_invariant (fun _ _ ho h => h.of_outline ho) (fun _ _ _ _ heff h => h.effect heff) h

end Database

/-! ## Events and digests -/

def Site.Declares (a : Site) (fullName : String) : Prop :=
  a.kind.isClass = true ∧ writtenScope a.chain = some fullName

instance (a : Site) (fullName : String) : Decidable (a.Declares fullName) :=
  inferInstanceAs (Decidable (a.kind.isClass = true ∧ writtenScope a.chain = some fullName))

namespace Situated

variable {U : Site → Prop} {c : Collector} {decl : Decl} {parent : Site} {fullName : String}

theorem declares_of_classAt? (h : Situated U c decl parent) {entry : ClassEntry}
    (hat : c.db.classAt? parent.place = some entry) : parent.Declares entry.fullName := by
  have := c.db.classAt?_name parent.place
  rw [hat] at this
  exact h.named.classes.markAt? h.around this.symm

theorem classAt?_of_declares (h : Situated U c decl parent) (hp : parent.Declares fullName) :
    ∃ entry, c.db.classAt? parent.place = some entry ∧ entry.fullName = fullName := by
  have hmark := (h.entered parent.place (by simp [Site.chain])).2 hp.1
  rw [← c.db.classAt?_name] at hmark
  obtain ⟨entry, hat⟩ := Option.isSome_iff_exists.mp (by simpa using hmark)
  have hw := (h.declares_of_classAt? hat).2
  rw [hp.2] at hw
  exact ⟨entry, hat, (Option.some.inj hw).symm⟩

theorem digest?_of_declares (h : Situated U c decl parent) (hp : parent.Declares fullName) :
    ∃ g, c.db.digest? fullName = some g := by
  obtain ⟨entry, hat, hname⟩ := h.classAt?_of_declares hp
  have hm := List.mem_of_find?_eq_some hat
  have hfind : (c.db.findClass? fullName).isSome = true := by
    rw [Database.findClass?, List.find?_isSome]
    exact ⟨entry, hm, by simp [hname]⟩
  obtain ⟨e, he⟩ := Option.isSome_iff_exists.mp hfind
  exact ⟨e.digest, by rw [Database.digest?, he]; rfl⟩

theorem digest_effect_frame (h : Situated U c decl parent) (hd : ¬ decl.site.Declares fullName)
    (hp : ¬ parent.Declares fullName) {db : Database} {d : Directive} (heff : c.Effect decl parent db d) :
    db.digest? fullName = c.db.digest? fullName := by
  cases heff with
  | opened kind named db_eq =>
    subst db_eq
    refine Database.digest?_of_classes ?_ _
    unfold Database.addNamespace
    split <;> rfl
  | declared scope kind named context db_eq d entered =>
    subst db_eq
    have hne : fullName ≠ (c.classRecord decl scope).fullName := by
      rintro rfl
      exact hd ⟨kind, h.class_written kind context⟩
    rw [Database.digest?, Database.findClass?_addClass, if_neg hne, Database.digest?]
  | member entry change kind known db_eq extended d =>
    subst db_eq
    have hne : fullName ≠ entry.fullName := by
      rintro rfl
      exact hp (h.declares_of_classAt? known)
    rw [Database.digest?, Database.findClass?_updateClass _ fun e => (extended e).fullName, if_neg hne,
      Database.digest?]
  | quiet beside other d leaf => exact Database.digest?_of_classes beside.classes _

/-- A class is left alone by events that neither declare it nor stand in one of its declarations. -/
theorem digest_frame (h : Situated U c decl parent) (hd : ¬ decl.site.Declares fullName)
    (hp : ¬ parent.Declares fullName) {o : Outcome} (ho : c.visit decl parent = o) :
    o.collector.db.digest? fullName = c.db.digest? fullName := by
  rcases c.visit_cases decl parent with ⟨-, hv⟩ | ⟨-, c', d, ha, ht, hv⟩ | ⟨-, c', ha, -, -, hv⟩
  · rw [← ho, hv]
    rfl
  · rw [← ho, hv]
    exact Database.digest?_of_outline ha.outline _
  · rw [hv] at ho
    rw [← Database.digest?_of_outline ha.outline]
    cases hans : o.answer with
    | error e =>
      have hreg := c'.visitDecl_regular decl parent
      rw [ho] at hreg
      rw [hreg.failed e hans]
    | ok d => exact (h.alike ha).digest_effect_frame hd hp (Collector.visitDecl_effect ho hans)

theorem digest_effect_child (h : Situated U c decl parent) (hd : ¬ decl.site.Declares fullName)
    (hp : parent.Declares fullName) {db : Database} {d : Directive} (heff : c.Effect decl parent db d)
    {g : Digest} (hg : c.db.digest? fullName = some g) :
    ∃ g', db.digest? fullName = some g' ∧ g.Grown decl g' := by
  obtain ⟨here, hat, hname⟩ := h.classAt?_of_declares hp
  cases heff with
  | opened kind named db_eq =>
    subst db_eq
    refine ⟨g, ?_, .refl_of (by simp [kind]) (by simp [kind, NodeKind.isMethod]) (by simp [kind]) (by simp [kind]) g⟩
    rw [← hg]
    refine Database.digest?_of_classes ?_ _
    unfold Database.addNamespace
    split <;> rfl
  | declared scope kind named context db_eq d entered =>
    subst db_eq
    have hne : fullName ≠ (c.classRecord decl scope).fullName := by
      rintro rfl
      exact hd ⟨kind, h.class_written kind context⟩
    refine ⟨g, ?_, ?_⟩
    · rw [Database.digest?, Database.findClass?_addClass, if_neg hne, ← hg, Database.digest?]
    · refine .refl_of ?_ ?_ ?_ ?_ g <;> cases hk : decl.kind <;> simp_all [NodeKind.isClass, NodeKind.isMethod]
  | member entry change kind known db_eq extended d =>
    subst db_eq
    obtain rfl : here = entry := by rw [hat] at known; exact Option.some.inj known
    unfold Database.digest? at hg ⊢
    obtain ⟨e, he, rfl⟩ := Option.map_eq_some_iff.mp hg
    refine ⟨(change e).digest, ?_, (extended e).grown⟩
    rw [Database.findClass?_updateClass _ fun e => (extended e).fullName, if_pos hname.symm, he]
    rfl
  | quiet beside other d leaf =>
    refine ⟨g, by rw [Database.digest?_of_classes beside.classes, hg], ?_⟩
    have hs : decl.kind.standsAlone = true := other.resolve_right (by simp [hat])
    refine .refl_of ?_ ?_ ?_ ?_ g <;> cases hk : decl.kind <;>
      simp_all [NodeKind.standsAlone, NodeKind.isClass, NodeKind.isMethod]

theorem digest_child (h : Situated U c decl parent) (hd : ¬ decl.site.Declares fullName)
    (hp : parent.Declares fullName) {o : Outcome} (ho : c.visit decl parent = o) {d : Directive}
    (hok : o.answer = .ok d) {g : Digest} (hg : c.db.digest? fullName = some g) :
    ∃ g', o.collector.db.digest? fullName = some g' ∧
      if c.includes (c.fileOf decl) then g.Grown decl g' else g' = g := by
  rcases c.visit_cases decl parent with ⟨hi, hv⟩ | ⟨hi, c', d', ha, ht, hv⟩ | ⟨hi, c', ha, -, -, hv⟩
  · rw [← ho, hv, hi]
    exact ⟨g, hg, by simp⟩
  · rw [← ho, hv, hi]
    refine ⟨g, by rw [← hg]; exact Database.digest?_of_outline ha.outline _, ?_⟩
    rw [if_pos rfl]
    refine .refl_of ?_ ?_ ?_ ?_ g <;> cases hk : decl.kind <;> simp_all [Collector.takes, NodeKind.isMethod]
  · rw [hv] at ho
    rw [hi]
    simp only [if_true]
    rw [← Database.digest?_of_outline ha.outline] at hg
    exact (h.alike ha).digest_effect_child hd hp (Collector.visitDecl_effect ho hok) hg

/-- A declaration of a class starts it afresh and is entered if the class is empty; otherwise it is
passed over and the class stays as it is. -/
theorem digest_declared (h : Situated U c decl parent) (hd : decl.site.Declares fullName)
    {o : Outcome} (ho : c.visit decl parent = o) {d : Directive} (hok : o.answer = .ok d) :
    (d = .enter ∧ (∀ g, c.db.digest? fullName = some g → g.isEmpty = true) ∧
      o.collector.db.digest? fullName = some (.fresh c decl)) ∨
    (d = .pass ∧ o.collector.db.digest? fullName = c.db.digest? fullName) := by
  have hcl : decl.kind.isClass = true := hd.1
  rcases c.visit_cases decl parent with ⟨hi, hv⟩ | ⟨hi, c', d', ha, ht, hv⟩ | ⟨hi, c', ha, -, -, hv⟩
  · rw [hv] at ho
    subst ho
    cases hok
    exact Or.inr ⟨rfl, rfl⟩
  · -- no open template takes a class
    cases hk : decl.kind <;> simp_all [Collector.takes, NodeKind.isClass]
  · rw [hv] at ho
    have hold := Database.digest?_of_outline ha.outline fullName
    have hfresh : Digest.fresh c' decl = Digest.fresh c decl := by
      simp [Digest.fresh, ha.fileOf, ha.includePath]
    rw [← hold, ← hfresh]
    cases Collector.visitDecl_effect ho hok with
    | opened kind named db_eq => simp [kind, NodeKind.isClass] at hcl
    | declared scope kind named context db_eq d entered =>
      have hw := (h.alike ha).class_written kind context
      rw [hd.2] at hw
      obtain rfl := Option.some.inj hw
      rw [db_eq]
      rcases Database.digest?_addClass c' decl scope decl.place with ⟨hm, hempty, hnew⟩ | ⟨hm, hsame⟩
      · rw [hm] at entered
        exact Or.inl ⟨by simpa using entered, hempty, hnew⟩
      · rw [hm] at entered
        exact Or.inr ⟨by simpa using entered, hsame⟩
    | member entry change kind known db_eq extended d =>
      cases hk : decl.kind <;> simp_all [NodeKind.standsAlone, NodeKind.isClass]
    | quiet beside other d leaf =>
      have hne : d ≠ .enter := fun he => by simp [(leaf he).2] at hcl
      have hns : d ≠ .stop := by
        rintro rfl
        exact (c'.visitDecl_regular decl parent).unstopped (ho ▸ hok)
      cases d with
      | stop => exact absurd rfl hns
      | pass => exact Or.inr ⟨rfl, Database.digest?_of_classes beside.classes _⟩
      | enter => exact absurd rfl hne

end Situated

end SymbolIndex
