import SymbolIndex.Proofs.Passage

/-!
# What the database knows, it keeps knowing

Each sort of record has a test that tells a repeated declaration from a new one. No event makes such a
test fail that held before, and a class that has members keeps some.
-/

namespace SymbolIndex

namespace Database

def knowsField (db : Database) (fullName name : String) : Bool :=
  (db.findClass? fullName).any fun entry => entry.record.fields.any (·.name == name)

/-- The class of a full name has bases, constructors or methods. -/
def isFull (db : Database) (fullName : String) : Bool := (db.digest? fullName).any fun g => !g.isEmpty

structure Grows (db db' : Database) : Prop where
  namespaces : ∀ name, db.namespaces.any (·.fullName == name) = true → db'.namespaces.any (·.fullName == name) = true
  enums : ∀ name, db.enums.any (·.fullName == name) = true → db'.enums.any (·.fullName == name) = true
  types : ∀ type, db.knowsType type = true → db'.knowsType type = true
  functions : ∀ function, db.knowsFunction function = true → db'.knowsFunction function = true
  classes : ∀ name, (db.digest? name).isSome = true → (db'.digest? name).isSome = true
  full : ∀ name, db.isFull name = true → db'.isFull name = true
  fields : ∀ fullName name, db.knowsField fullName name = true → db'.knowsField fullName name = true

theorem Grows.refl (db : Database) : db.Grows db :=
  ⟨fun _ h => h, fun _ h => h, fun _ h => h, fun _ h => h, fun _ h => h, fun _ h => h, fun _ _ h => h⟩

theorem Grows.trans {a b c : Database} (h : a.Grows b) (h' : b.Grows c) : a.Grows c where
  namespaces := fun name hn => h'.namespaces name (h.namespaces name hn)
  enums := fun name hn => h'.enums name (h.enums name hn)
  types := fun type ht => h'.types type (h.types type ht)
  functions := fun f hf => h'.functions f (h.functions f hf)
  classes := fun name hc => h'.classes name (h.classes name hc)
  full := fun name hc => h'.full name (h.full name hc)
  fields := fun fullName name hf => h'.fields fullName name (h.fields fullName name hf)

/-! ## Open templates -/

theorem knowsFunction_outline (db : Database) (function : FreeFunction) :
    db.outline.knowsFunction function = db.knowsFunction function := by
  simp only [knowsFunction, outline, List.any_map]
  rfl

theorem knowsField_outline (db : Database) (fullName name : String) :
    db.outline.knowsField fullName name = db.knowsField fullName name := by
  rw [knowsField, knowsField, outline_findClass?]
  cases db.findClass? fullName <;> rfl

theorem Grows.of_outline {db db' : Database} (ho : db'.outline = db.outline) : db.Grows db' := by
  constructor
  · intro name h
    rw [namespaces_of_outline ho]
    exact h
  · intro name h
    rw [enums_of_outline ho]
    exact h
  · intro type h
    rw [knowsType, types_of_outline ho]
    exact h
  · intro function h
    rw [← knowsFunction_outline, ho, knowsFunction_outline]
    exact h
  · intro name h
    rw [digest?_of_outline ho]
    exact h
  · intro name h
    rw [isFull, digest?_of_outline ho]
    exact h
  · intro fullName name h
    rw [← knowsField_outline, ho, knowsField_outline]
    exact h

/-! ## Effects -/

theorem Grows.of_classes {db db' : Database} (hn : db'.namespaces = db.namespaces) (he : db'.enums = db.enums)
    (ht : db'.types = db.types) (hf : db'.functions = db.functions)
    (hclass : ∀ name entry, db.findClass? name = some entry → ∃ entry', db'.findClass? name = some entry' ∧
      (entry.record.isEmpty = false → entry'.record.isEmpty = false) ∧
      ∀ field ∈ entry.record.fields, field ∈ entry'.record.fields) : db.Grows db' := by
  constructor
  · intro name h
    rw [hn]
    exact h
  · intro name h
    rw [he]
    exact h
  · intro type h
    rw [knowsType, ht]
    exact h
  · intro function h
    rw [knowsFunction, hf]
    exact h
  · intro name h
    unfold digest? at h ⊢
    cases hfind : db.findClass? name with
    | none => simp [hfind] at h
    | some entry =>
      obtain ⟨entry', hfind', -⟩ := hclass name entry hfind
      simp [hfind']
  · intro name h
    unfold isFull digest? at h ⊢
    cases hfind : db.findClass? name with
    | none => simp [hfind] at h
    | some entry =>
      obtain ⟨entry', hfind', hfull, -⟩ := hclass name entry hfind
      simp [hfind, hfind', ClassEntry.digest_isEmpty] at h ⊢
      exact hfull h
  · intro fullName name h
    unfold knowsField at h ⊢
    cases hfind : db.findClass? fullName with
    | none => simp [hfind] at h
    | some entry =>
      obtain ⟨entry', hfind', -, hfields⟩ := hclass fullName entry hfind
      simp only [hfind, hfind', Option.any_some, List.any_eq_true] at h ⊢
      obtain ⟨field, hm, hname⟩ := h
      exact ⟨field, hfields field hm, hname⟩

theorem Grows.addNamespace (db : Database) (name fullName : String) (place : Place) :
    db.Grows (db.addNamespace name fullName place) := by
  have hnames : ∀ other, db.namespaces.any (·.fullName == other) = true →
      (db.addNamespace name fullName place).namespaces.any (·.fullName == other) = true := by
    intro other h
    unfold Database.addNamespace
    split
    · simp only [List.any_map, List.any_eq_true] at h ⊢
      obtain ⟨entry, hm, hname⟩ := h
      refine ⟨entry, hm, ?_⟩
      simp only [Function.comp_apply]
      split <;> exact hname
    · rw [List.any_append, h, Bool.true_or]
  have hrest : db.Grows { db.addNamespace name fullName place with namespaces := db.namespaces } := by
    unfold Database.addNamespace
    split <;> exact .refl db
  exact { hrest with namespaces := hnames }

theorem Grows.addClass (db : Database) (c : Class) (place : Place) (access : Access) :
    db.Grows (db.addClass c place access).db := by
  have hclass : ∀ name entry, db.findClass? name = some entry → ∃ entry',
      (db.addClass c place access).db.findClass? name = some entry' ∧
      (entry.record.isEmpty = false → entry'.record.isEmpty = false) ∧
      ∀ field ∈ entry.record.fields, field ∈ entry'.record.fields := by
    intro name entry hfind
    rw [findClass?_addClass]
    by_cases hn : name = c.fullName
    · refine ⟨redeclare entry c place access, by simp [hn, hn ▸ hfind], ?_⟩
      unfold redeclare
      split
      · rename_i hempty
        refine ⟨?_, fun _ h => h⟩
        intro hfull
        rw [hempty] at hfull
        cases hfull
      · exact ⟨fun h => h, fun _ h => h⟩
    · exact ⟨entry, by rw [if_neg hn, hfind], fun h => h, fun _ h => h⟩
  have htypes : ∀ type, db.knowsType type = true → (db.addClass c place access).db.knowsType type = true := by
    intro type h
    unfold Database.addClass
    split
    · exact h
    · unfold knowsType at h ⊢
      rw [List.any_append, h, Bool.true_or]
  have hrest : db.Grows { (db.addClass c place access).db with types := db.types } := by
    apply Grows.of_classes
    · unfold Database.addClass
      split <;> rfl
    · unfold Database.addClass
      split <;> rfl
    · rfl
    · unfold Database.addClass
      split <;> rfl
    · exact hclass
  exact { hrest with types := htypes }

theorem Grows.updateClass (db : Database) (fullName : String) {decl : Decl} {change : ClassEntry → ClassEntry}
    (h : ∀ e, Extends decl e (change e)) : db.Grows (db.updateClass fullName change) := by
  apply Grows.of_classes
  · rfl
  · rfl
  · rfl
  · rfl
  · intro name entry hfind
    rw [findClass?_updateClass db fun e => (h e).fullName]
    by_cases hn : name = fullName
    · refine ⟨change entry, by rw [if_pos hn, hfind]; rfl, ?_, (h entry).fields⟩
      -- lists only get longer, so one that is not empty stays so
      intro hfull
      obtain ⟨added, hb, -⟩ := (h entry).bases
      rw [← ClassEntry.digest_isEmpty] at hfull ⊢
      simp only [Digest.isEmpty, ClassEntry.digest, (h entry).constructors, (h entry).methods, hb] at hfull ⊢
      simp only [Bool.and_eq_false_iff, List.isEmpty_eq_false_iff, ne_eq, List.append_eq_nil_iff, not_and_or] at hfull ⊢
      tauto
    · exact ⟨entry, by rw [if_neg hn, hfind], fun h => h, fun _ h => h⟩

theorem Grows.beside {db db' : Database} {decl : Decl} (h : db.Beside decl db') : db.Grows db' := by
  have henums : ∀ (d : Database) (name : String),
      d.enums.any (·.fullName == name) = (d.enums.map EnumEntry.fullName).any (· == name) := by
    intro d name
    rw [List.any_map]
    rfl
  constructor
  · intro name hn
    rw [h.namespaces]
    exact hn
  · intro name he
    obtain ⟨new, hnew⟩ := h.enumNames
    rw [henums] at he ⊢
    rw [hnew, List.any_append, he, Bool.true_or]
  · intro type ht
    obtain ⟨new, hnew, -⟩ := h.types
    unfold knowsType at ht ⊢
    rw [hnew, List.any_append, ht, Bool.true_or]
  · intro function hf
    obtain ⟨new, hnew⟩ := h.functions
    unfold knowsFunction at hf ⊢
    rw [hnew, List.any_append, hf, Bool.true_or]
  · intro name hc
    rw [digest?_of_classes h.classes]
    exact hc
  · intro name hc
    rw [isFull, digest?_of_classes h.classes]
    exact hc
  · intro fullName name hf
    unfold knowsField findClass? at hf ⊢
    rw [h.classes]
    exact hf

theorem Grows.effect {c : Collector} {decl : Decl} {parent : Site} {db : Database} {d : Directive}
    (heff : c.Effect decl parent db d) : c.db.Grows db := by
  cases heff with
  | opened kind named db_eq =>
    rw [db_eq]
    exact .addNamespace ..
  | declared scope kind named context db_eq d entered =>
    rw [db_eq]
    exact .addClass ..
  | member entry change kind known db_eq extended d =>
    rw [db_eq]
    exact .updateClass c.db entry.fullName extended
  | quiet beside other d leaf => exact .beside beside

theorem addClass_entersMembers (db : Database) (c : Class) (place : Place) (access : Access) :
    (db.addClass c place access).entersMembers = !db.isFull c.fullName := by
  unfold Database.addClass isFull digest?
  cases db.findClass? c.fullName with
  | none => rfl
  | some entry => simp [ClassEntry.digest_isEmpty]

end Database

theorem Situated.isFull_of_fills {U : Site → Prop} {c : Collector} {decl : Decl} {parent : Site} {fullName : String}
    (h : Situated U c decl parent) (hp : parent.Declares fullName) (hf : decl.kind.fills = true) {db : Database}
    {d : Directive} (heff : c.Effect decl parent db d) : db.isFull fullName = true := by
  have hd : ¬ decl.site.Declares fullName := by
    intro hd
    have hcl : decl.kind.isClass = true := hd.1
    cases hk : decl.kind <;> simp_all [NodeKind.isClass, NodeKind.fills, NodeKind.isMethod]
  obtain ⟨g, hg⟩ := h.digest?_of_declares hp
  obtain ⟨g', hg', hgrown⟩ := h.digest_effect_child hd hp heff hg
  rw [Database.isFull, hg', Option.any_some, hgrown.isEmpty_eq_false hf]
  rfl

theorem Collector.visit_grows (c : Collector) (decl : Decl) (parent : Site) :
    c.db.Grows (c.visit decl parent).collector.db := by
  refine visit_invariant (P := c.db.Grows) ?_ ?_ (.refl c.db)
  · intro db db' ho h
    exact h.trans (.of_outline ho)
  · intro c' db d _ heff h
    exact h.trans (.effect heff)

theorem Walks.grows {forest : Forest} {parent : Decl} {c c' : Collector} {calls : List WalkCall}
    (h : Walks forest parent c calls c') : c.db.Grows c'.db :=
  h.invariant (P := c.db.Grows) (fun c₁ decl parent hg => hg.trans (c₁.visit_grows decl parent)) (.refl c.db)

end SymbolIndex
