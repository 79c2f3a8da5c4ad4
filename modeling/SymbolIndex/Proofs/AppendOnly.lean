import SymbolIndex.Proofs.History
import SymbolIndex.Proofs.Writes

/-!
# The database is only appended to

Every event leaves what it finds: types, namespaces and functions stay where they are, and a class or
enum that is known goes on with longer lists. Only a class without members takes a new origin. Template
parameters reach a record late, so methods and functions are compared without them.
-/

namespace SymbolIndex

/-- The first elements of a list are those of another one, each changed as `R` allows. -/
inductive Begins {α : Type} (R : α → α → Prop) : List α → List α → Prop where
  | nil (added : List α) : Begins R [] added
  | cons {a b : α} {as bs : List α} (head : R a b) (tail : Begins R as bs) : Begins R (a :: as) (b :: bs)

namespace Begins

variable {α : Type} {R : α → α → Prop}

theorem refl (hR : ∀ a, R a a) : ∀ l : List α, Begins R l l
  | [] => .nil []
  | a :: l => .cons (hR a) (refl hR l)

theorem trans (hR : ∀ {a b c}, R a b → R b c → R a c) {l₁ l₂ l₃ : List α} (h : Begins R l₁ l₂)
    (h' : Begins R l₂ l₃) : Begins R l₁ l₃ := by
  induction h generalizing l₃ with
  | nil => exact .nil l₃
  | cons head _ ih =>
    cases h' with
    | cons head' tail' => exact .cons (hR head head') (ih tail')

theorem append {l l' : List α} (h : Begins R l l') (added : List α) : Begins R l (l' ++ added) := by
  induction h with
  | nil => exact .nil _
  | cons head _ ih => exact .cons head ih

theorem of_map {change : α → α} (hR : ∀ a, R a (change a)) : ∀ l : List α, Begins R l (l.map change)
  | [] => .nil []
  | a :: l => .cons (hR a) (of_map hR l)

end Begins

/-! ## What a record keeps -/

structure Class.Precedes (old new : Class) : Prop where
  name : new.name = old.name
  fullName : new.fullName = old.fullName
  key : new.key = old.key
  origin : old.isEmpty = false → new.fromFile = old.fromFile ∧ new.includePath = old.includePath
  bases : old.bases <+: new.bases
  knownBases : old.knownBases <+: new.knownBases
  constructors : old.constructors.map Method.outline <+: new.constructors.map Method.outline
  methods : old.methods.map Method.outline <+: new.methods.map Method.outline
  fields : old.fields <+: new.fields
  templateParams : old.templateParams.map TemplateParameter.name <+: new.templateParams.map TemplateParameter.name

structure Enum.Precedes (old new : Enum) : Prop where
  name : new.name = old.name
  fullName : new.fullName = old.fullName
  fromFile : new.fromFile = old.fromFile
  constants : old.constants.map Prod.fst <+: new.constants.map Prod.fst

structure Database.Precedes (old new : Database) : Prop where
  types : old.types <+: new.types
  namespaces : old.namespaces.map NamespaceEntry.ns <+: new.namespaces.map NamespaceEntry.ns
  classes : Begins (fun e e' => e.record.Precedes e'.record) old.classes new.classes
  enums : Begins (fun e e' => e.record.Precedes e'.record) old.enums new.enums
  functions : old.functions.map FreeFunction.outline <+: new.functions.map FreeFunction.outline

theorem Class.isEmpty_of_outlines {old new : Class} (hb : old.bases <+: new.bases)
    (hc : old.constructors.map Method.outline <+: new.constructors.map Method.outline)
    (hm : old.methods.map Method.outline <+: new.methods.map Method.outline) (h : old.isEmpty = false) :
    new.isEmpty = false := by
  have hlen := And.intro hb.length_le (And.intro hc.length_le hm.length_le)
  simp only [List.length_map] at hlen
  simp only [isEmpty, Bool.and_eq_false_iff, List.isEmpty_eq_false_iff_exists_mem, ← List.length_pos_iff_exists_mem]
    at h ⊢
  omega

namespace Class.Precedes

theorem refl (c : Class) : c.Precedes c :=
  ⟨rfl, rfl, rfl, fun _ => ⟨rfl, rfl⟩, List.prefix_rfl, List.prefix_rfl, List.prefix_rfl, List.prefix_rfl,
    List.prefix_rfl, List.prefix_rfl⟩

theorem trans {a b c : Class} (h : a.Precedes b) (h' : b.Precedes c) : a.Precedes c where
  name := h'.name.trans h.name
  fullName := h'.fullName.trans h.fullName
  key := h'.key.trans h.key
  origin := by
    -- a class that has members keeps some, so it takes no new origin at either step
    intro hfull
    have hfull' := Class.isEmpty_of_outlines h.bases h.constructors h.methods hfull
    obtain ⟨hf, hi⟩ := h.origin hfull
    obtain ⟨hf', hi'⟩ := h'.origin hfull'
    exact ⟨hf'.trans hf, hi'.trans hi⟩
  bases := h.bases.trans h'.bases
  knownBases := h.knownBases.trans h'.knownBases
  constructors := h.constructors.trans h'.constructors
  methods := h.methods.trans h'.methods
  fields := h.fields.trans h'.fields
  templateParams := h.templateParams.trans h'.templateParams

end Class.Precedes

namespace Enum.Precedes

theorem refl (e : Enum) : e.Precedes e := ⟨rfl, rfl, rfl, List.prefix_rfl⟩

theorem trans {a b c : Enum} (h : a.Precedes b) (h' : b.Precedes c) : a.Precedes c :=
  ⟨h'.name.trans h.name, h'.fullName.trans h.fullName, h'.fromFile.trans h.fromFile, h.constants.trans h'.constants⟩

end Enum.Precedes

namespace Database.Precedes

theorem refl (db : Database) : db.Precedes db where
  types := List.prefix_rfl
  namespaces := List.prefix_rfl
  classes := .refl (fun e => .refl e.record) _
  enums := .refl (fun e => .refl e.record) _
  functions := List.prefix_rfl

theorem trans {a b c : Database} (h : a.Precedes b) (h' : b.Precedes c) : a.Precedes c where
  types := h.types.trans h'.types
  namespaces := h.namespaces.trans h'.namespaces
  classes := h.classes.trans (fun h h' => h.trans h') h'.classes
  enums := h.enums.trans (fun h h' => h.trans h') h'.enums
  functions := h.functions.trans h'.functions

/-! ## The database's operations -/

variable (db : Database)

theorem updateClass (fullName : String) {change : ClassEntry → ClassEntry}
    (h : ∀ e : ClassEntry, e.record.Precedes (change e).record) : db.Precedes (db.updateClass fullName change) := by
  have hchange : ∀ e : ClassEntry,
      e.record.Precedes (if e.fullName = fullName then change e else e).record := by
    intro e
    by_cases hn : e.fullName = fullName
    · rw [if_pos hn]
      exact h e
    · rw [if_neg hn]
      exact .refl e.record
  exact { Precedes.refl db with classes := .of_map hchange _ }

theorem addNamespace (name fullName : String) (place : Place) : db.Precedes (db.addNamespace name fullName place) := by
  rw [db.addNamespace_eq]
  refine { Precedes.refl db with namespaces := ?_ }
  show _ <+: (db.addNamespace name fullName place).namespaces.map NamespaceEntry.ns
  rw [db.addNamespace_records]
  split
  · exact List.prefix_rfl
  · exact List.prefix_append ..

theorem redeclare (entry : ClassEntry) (c : Class) (place : Place) (access : Access) :
    entry.record.Precedes (Database.redeclare entry c place access).record := by
  unfold Database.redeclare
  split
  · rename_i hempty
    refine { Class.Precedes.refl entry.record with origin := ?_ }
    intro hfull
    rw [hempty] at hfull
    cases hfull
  · exact .refl entry.record

theorem addClass (c : Class) (place : Place) (access : Access) : db.Precedes (db.addClass c place access).db := by
  unfold Database.addClass
  split
  · exact updateClass db c.fullName fun e => redeclare e c place access
  · exact { Precedes.refl db with
      types := List.prefix_append ..
      classes := (Precedes.refl db).classes.append _ }

theorem addEnum (e : Enum) (place : Place) : db.Precedes (db.addEnum e place) := by
  unfold Database.addEnum
  split
  · exact .refl db
  · exact { Precedes.refl db with
      types := List.prefix_append ..
      enums := (Precedes.refl db).enums.append _ }

theorem putConstant (e : Enum) (name : String) (value : Int) :
    e.Precedes { e with constants := SymbolIndex.putConstant name value e.constants } := by
  refine ⟨rfl, rfl, rfl, ?_⟩
  simp only [map_fst_putConstant]
  split
  · exact List.prefix_rfl
  · exact List.prefix_append ..

theorem addConstantTo (place : Place) (name : String) (value : Int) : ∀ enums : List EnumEntry,
    Begins (fun e e' => e.record.Precedes e'.record) enums (Database.addConstantTo place name value enums)
  | [] => .nil _
  | entry :: rest => by
    unfold Database.addConstantTo
    split
    · exact .cons (putConstant entry.record name value) (.refl (fun e => .refl e.record) rest)
    · exact .cons (.refl entry.record) (addConstantTo place name value rest)

theorem addConstant (place : Place) (name : String) (value : Int) : db.Precedes (db.addConstant place name value) :=
  { Precedes.refl db with enums := addConstantTo place name value db.enums }

theorem addType (type : TypeRef) : db.Precedes (db.addType type) := by
  unfold Database.addType
  split
  · exact .refl db
  · exact { Precedes.refl db with types := List.prefix_append .. }

theorem addFunction (function : FreeFunction) : db.Precedes (db.addFunction function) := by
  unfold Database.addFunction
  split
  · exact .refl db
  · exact { Precedes.refl db with functions := by simp }

/-! ## Open templates -/

theorem changeTemplateParams (change : List TemplateParameter → List TemplateParameter) (target : SignatureRef) :
    db.Precedes (db.changeTemplateParams change target) := by
  have hm : ∀ m : Method, Method.outline { m with templateParams := change m.templateParams } = m.outline :=
    fun _ => rfl
  have hf : ∀ f : FreeFunction,
      FreeFunction.outline { f with templateParams := change f.templateParams } = f.outline := fun _ => rfl
  cases target with
  | constructorOf owner index =>
    apply updateClass
    intro e
    exact { Class.Precedes.refl e.record with constructors := changeAt_map_eq _ _ hm .. ▸ List.prefix_rfl }
  | methodOf owner index =>
    apply updateClass
    intro e
    exact { Class.Precedes.refl e.record with methods := changeAt_map_eq _ _ hm .. ▸ List.prefix_rfl }
  | function index =>
    exact { Precedes.refl db with functions := changeAt_map_eq _ _ hf .. ▸ List.prefix_rfl }

theorem changeClassTemplateParams (owner : String) {change : List TemplateParameter → List TemplateParameter}
    (h : ∀ l, l.map TemplateParameter.name <+: (change l).map TemplateParameter.name) :
    db.Precedes (db.changeClassTemplateParams owner change) := by
  apply updateClass
  intro e
  exact { Class.Precedes.refl e.record with templateParams := h _ }

end Database.Precedes

theorem map_changeLast {α β : Type} (view : α → β) (change : α → α) (h : ∀ a, view (change a) = view a) :
    ∀ l : List α, (changeLast change l).map view = l.map view
  | [] => rfl
  | [a] => by simp [changeLast, h]
  | a :: b :: rest => by
    rw [changeLast, List.map_cons, map_changeLast view change h (b :: rest), List.map_cons (a := a)]

theorem TemplateParameter.withDefault_name (param : TemplateParameter) (value : String) :
    (param.withDefault value).name = param.name := by
  unfold withDefault
  split <;> rfl

theorem TemplateParameter.names_withDefault (value : String) (params : List TemplateParameter) :
    params.map name <+: (changeLast (·.withDefault value) params).map name :=
  map_changeLast name _ (fun param => param.withDefault_name value) params ▸ List.prefix_rfl

namespace Collector

variable (c : Collector) (decl : Decl) (parent : Site)

theorem settleClass_precedes : c.db.Precedes (c.settleClass decl).db := by
  unfold settleClass
  split
  · exact .refl c.db
  · simp only
    split
    · apply Database.Precedes.changeClassTemplateParams
      intro l
      exact TemplateParameter.names_withDefault _ l
    · exact .refl c.db

theorem offerFunction_precedes : c.db.Precedes (c.offerFunction decl parent).1.db := by
  unfold offerFunction
  split
  · exact .refl c.db
  · split
    · simp only
      exact .changeTemplateParams ..
    · simp only
      split
      · simp only
        split
        · exact .changeTemplateParams ..
        · exact .refl c.db
      · exact .refl c.db
    · exact .refl c.db
    · exact .refl c.db

/-! ## Events -/

theorem Adds.precedes {c : Collector} {owner : ClassEntry} {decl : Decl} {change : ClassEntry → ClassEntry}
    (h : c.Adds owner decl change) (e : ClassEntry) : e.record.Precedes (change e).record := by
  have hrefl := Class.Precedes.refl e.record
  cases h with
  | parameter kind => exact { hrefl with templateParams := by simp }
  | base kind found =>
    exact { hrefl with bases := List.prefix_append .., knownBases := List.prefix_append .. }
  | unknownBase kind missed => exact { hrefl with bases := List.prefix_append .. }
  | access kind => exact hrefl
  | constructor signature kind read => exact { hrefl with constructors := by simp }
  | method signature kind read => exact { hrefl with methods := by simp }
  | field param kind read fresh => exact { hrefl with fields := List.prefix_append .. }

theorem Writes.precedes {c : Collector} {decl : Decl} {parent : Site} {db : Database}
    (h : c.Writes decl parent db) : c.db.Precedes db := by
  cases h with
  | nothing => exact .refl c.db
  | ofNamespace kind named => exact .addNamespace ..
  | ofClass scope kind named context => exact .addClass ..
  | ofEnum kind named => exact .addEnum ..
  | ofConstant kind => exact .addConstant ..
  | ofAlias scope kind context => exact .addType ..
  | ofFunction signature kind free read => exact .addFunction ..
  | ofMember owner kind known adds => exact .updateClass c.db owner.fullName adds.precedes

theorem visit_precedes : c.db.Precedes (c.visit decl parent).collector.db := by
  rcases c.visit_writes decl parent with hsame | hwrites
  · rw [hsame]
    exact .refl c.db
  · have hsettled := (c.settleClass_precedes decl).trans ((c.settleClass decl).offerFunction_precedes decl parent)
    exact hsettled.trans hwrites.precedes

end Collector

/-- Every event in every state only appends to the database, and so do all events between an earlier and a
later state of a run. -/
theorem database_only_appended_to (c : Collector) :
    (∀ (decl : Decl) (parent : Site), c.db.Precedes (c.visit decl parent).collector.db) ∧
      ∀ units : List SourceUnit,
        (c.states units).Pairwise fun earlier later => earlier.db.Precedes later.db := by
  refine ⟨c.visit_precedes, ?_⟩
  apply c.states_pairwise (R := Database.Precedes) Database.Precedes.trans
  intro m
  exact m.before.visit_precedes m.decl m.parent.site

end SymbolIndex
