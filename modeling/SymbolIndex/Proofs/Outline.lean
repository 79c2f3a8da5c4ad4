import SymbolIndex.Collector.Visit

/-!
# Outlines

Template parameters reach a record late, through an open template. The outline of a database leaves
them out. Open templates keep the outline, so an event changes it only through the declaration it is
about.
-/

namespace SymbolIndex

/-! ## Records without template parameters -/

def Method.outline (m : Method) : Method := { m with templateParams := [] }

def FreeFunction.outline (f : FreeFunction) : FreeFunction := { f with templateParams := [] }

def Class.outline (c : Class) : Class :=
  { c with
    constructors := c.constructors.map Method.outline
    methods := c.methods.map Method.outline
    templateParams := [] }

def ClassEntry.outline (entry : ClassEntry) : ClassEntry := { entry with record := entry.record.outline }

def Database.outline (db : Database) : Database :=
  { db with
    classes := db.classes.map ClassEntry.outline
    functions := db.functions.map FreeFunction.outline }

@[simp] theorem ClassEntry.outline_fullName (entry : ClassEntry) : entry.outline.fullName = entry.fullName := rfl

@[simp] theorem ClassEntry.outline_places (entry : ClassEntry) : entry.outline.places = entry.places := rfl

@[simp] theorem ClassEntry.outline_declaredAt (entry : ClassEntry) (place : Place) :
    entry.outline.declaredAt place = entry.declaredAt place := rfl

theorem changeAt_map_eq {α β : Type} (view : α → β) (change : α → α) (h : ∀ a, view (change a) = view a) :
    ∀ (n : Nat) (l : List α), (changeAt change n l).map view = l.map view
  | _, [] => by cases ‹Nat› <;> rfl
  | 0, a :: rest => by simp [changeAt, h]
  | n + 1, a :: rest => by simp [changeAt, changeAt_map_eq view change h n rest]

namespace Database

theorem updateClass_outline (db : Database) (fullName : String) (change : ClassEntry → ClassEntry)
    (h : ∀ entry, (change entry).outline = entry.outline) :
    (db.updateClass fullName change).outline = db.outline := by
  have hc : ∀ entry : ClassEntry,
      (if entry.fullName = fullName then change entry else entry).outline = entry.outline := by
    intro entry
    split
    · exact h entry
    · rfl
  simp [updateClass, outline, Function.comp_def, hc]

theorem changeTemplateParams_outline (db : Database)
    (change : List TemplateParameter → List TemplateParameter) (target : SignatureRef) :
    (db.changeTemplateParams change target).outline = db.outline := by
  have hm : ∀ m : Method, Method.outline { m with templateParams := change m.templateParams } = m.outline :=
    fun _ => rfl
  cases target with
  | constructorOf owner index =>
    apply updateClass_outline
    intro entry
    simp only [ClassEntry.outline, Class.outline]
    rw [changeAt_map_eq _ _ hm]
  | methodOf owner index =>
    apply updateClass_outline
    intro entry
    simp only [ClassEntry.outline, Class.outline]
    rw [changeAt_map_eq _ _ hm]
  | function index =>
    have hf : ∀ f : FreeFunction,
        FreeFunction.outline { f with templateParams := change f.templateParams } = f.outline := fun _ => rfl
    simp only [changeTemplateParams, outline]
    rw [changeAt_map_eq _ _ hf]

theorem changeClassTemplateParams_outline (db : Database) (owner : String)
    (change : List TemplateParameter → List TemplateParameter) :
    (db.changeClassTemplateParams owner change).outline = db.outline :=
  updateClass_outline db owner _ fun _ => rfl

/-! ## What an outline shows

Template parameters belong to classes and functions, so the outline shows the rest as it is. -/

section
variable {db db' : Database} (h : db'.outline = db.outline)
include h

theorem namespaces_of_outline : db'.namespaces = db.namespaces := by
  have := congrArg Database.namespaces h
  exact this

theorem types_of_outline : db'.types = db.types := by
  have := congrArg Database.types h
  exact this

theorem enums_of_outline : db'.enums = db.enums := by
  have := congrArg Database.enums h
  exact this

end

theorem outline_findClass? (db : Database) (fullName : String) :
    db.outline.findClass? fullName = (db.findClass? fullName).map ClassEntry.outline := by
  simp [findClass?, outline, List.find?_map, Function.comp_def]

theorem outline_classAt? (db : Database) (place : Place) :
    db.outline.classAt? place = (db.classAt? place).map ClassEntry.outline := by
  simp [classAt?, outline, List.find?_map, Function.comp_def]

end Database

/-! ## Open templates keep the outline -/

namespace Collector

structure Alike (c c' : Collector) : Prop where
  outline : c'.db.outline = c.db.outline
  base : c'.base = c.base
  roots : c'.roots = c.roots

theorem Alike.refl (c : Collector) : c.Alike c := ⟨rfl, rfl, rfl⟩

theorem Alike.trans {a b c : Collector} (h : a.Alike b) (h' : b.Alike c) : a.Alike c :=
  ⟨h'.outline.trans h.outline, h'.base.trans h.base, h'.roots.trans h.roots⟩

theorem settleClass_alike (c : Collector) (decl : Decl) : c.Alike (c.settleClass decl) := by
  unfold settleClass
  split
  · exact Alike.refl c
  · refine ⟨?_, rfl, rfl⟩
    simp only
    split
    · exact Database.changeClassTemplateParams_outline ..
    · rfl

@[simp] theorem settleClass_openClass (c : Collector) (decl : Decl) : (c.settleClass decl).openClass = none := by
  unfold settleClass
  split <;> simp_all

theorem offerFunction_alike (c : Collector) (decl : Decl) (parent : Site) :
    c.Alike (c.offerFunction decl parent).1 := by
  unfold offerFunction
  split
  · exact Alike.refl c
  · split
    · exact ⟨Database.changeTemplateParams_outline .., rfl, rfl⟩
    · simp only
      split
      · refine ⟨?_, rfl, rfl⟩
        simp only
        split
        · exact Database.changeTemplateParams_outline ..
        · rfl
      · exact ⟨rfl, rfl, rfl⟩
    · exact Alike.refl c
    · exact ⟨rfl, rfl, rfl⟩

/-- The kinds that an open function template takes, and where the walk goes from them. -/
def takes : NodeKind → Option Directive
  | .templateTypeParameter => some .enter
  | .typeRef | .namespaceRef => some .pass
  | _ => none

theorem offerFunction_taken {c c' : Collector} {decl : Decl} {parent : Site} {d : Directive}
    (h : c.offerFunction decl parent = (c', some d)) : takes decl.kind = some d := by
  unfold offerFunction at h
  split at h
  · simp at h
  · split at h
    · rename_i hk
      simp only [Prod.mk.injEq, Option.some.injEq] at h
      simp [takes, hk, h.2]
    · rename_i hk
      simp only at h
      split at h <;> simp only [Prod.mk.injEq, Option.some.injEq] at h <;> simp [takes, hk, h.2]
    · rename_i hk
      simp only [Prod.mk.injEq, Option.some.injEq] at h
      simp [takes, hk, h.2]
    · simp at h

theorem offerFunction_refused {c c' : Collector} {decl : Decl} {parent : Site}
    (h : c.offerFunction decl parent = (c', none)) : c'.openFunction = none ∧ c'.openClass = c.openClass := by
  unfold offerFunction at h
  split at h
  · rename_i hn
    simp only [Prod.mk.injEq, and_true] at h
    subst h
    exact ⟨hn, rfl⟩
  · split at h
    · simp at h
    · simp only at h
      split at h <;> simp at h
    · simp at h
    · simp only [Prod.mk.injEq, and_true] at h
      subst h
      exact ⟨rfl, rfl⟩

/-- What an event comes to: it is passed over, an open function template takes it, or it is visited
as a declaration with no template open. -/
theorem visit_cases (c : Collector) (decl : Decl) (parent : Site) :
    (c.includes (c.fileOf decl) = false ∧ c.visit decl parent = c.answer c.db .pass []) ∨
    (c.includes (c.fileOf decl) = true ∧ ∃ c' d, c.Alike c' ∧ takes decl.kind = some d ∧
      c.visit decl parent = c'.answer c'.db d []) ∨
    (c.includes (c.fileOf decl) = true ∧ ∃ c', c.Alike c' ∧ c'.openClass = none ∧ c'.openFunction = none ∧
      c.visit decl parent = c'.visitDecl decl parent) := by
  by_cases hi : c.includes (c.fileOf decl) = true
  · right
    have ha := (c.settleClass_alike decl).trans ((c.settleClass decl).offerFunction_alike decl parent)
    unfold visit
    rw [if_pos hi]
    generalize hr : (c.settleClass decl).offerFunction decl parent = r at ha
    obtain ⟨c', answer⟩ := r
    cases answer with
    | some d => exact Or.inl ⟨hi, c', d, ha, offerFunction_taken hr, rfl⟩
    | none =>
      obtain ⟨hf, hc⟩ := offerFunction_refused hr
      exact Or.inr ⟨hi, c', ha, by rw [hc, settleClass_openClass], hf, rfl⟩
  · left
    refine ⟨by simpa using hi, ?_⟩
    unfold visit
    rw [if_neg hi]

theorem Alike.fileOf {c c' : Collector} (h : c.Alike c') (decl : Decl) : c'.fileOf decl = c.fileOf decl := by
  simp [Collector.fileOf, h.base]

theorem Alike.includePath {c c' : Collector} (h : c.Alike c') (path : String) :
    c'.includePath path = c.includePath path := by
  simp [Collector.includePath, Collector.rootOf?, h.roots, h.base]

theorem Alike.includes {c c' : Collector} (h : c.Alike c') (path : String) :
    c'.includes path = c.includes path := by
  simp [Collector.includes, Collector.rootOf?, h.roots]

end Collector

end SymbolIndex
