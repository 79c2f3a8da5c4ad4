import SymbolIndex.Proofs.AppendOnly
import SymbolIndex.Proofs.Writes

/-!
# Signatures and their template parameters

The constructors, methods and functions of the database by the list they stand in and their position there.
What is declared never changes the template parameters of a signature that is there: only an open template does.
-/

namespace SymbolIndex

/-! ## Signatures by where they stand -/

/-- The lists of the database that hold signatures. -/
inductive SignatureTable where
  | constructorsOf (owner : String)
  | methodsOf (owner : String)
  | functions
  deriving DecidableEq

namespace SignatureRef

def table : SignatureRef → SignatureTable
  | constructorOf owner _ => .constructorsOf owner
  | methodOf owner _ => .methodsOf owner
  | function _ => .functions

def index : SignatureRef → Nat
  | constructorOf _ index => index
  | methodOf _ index => index
  | function index => index

theorem eq_of_table {t t' : SignatureRef} (htable : t.table = t'.table) (hindex : t.index = t'.index) : t = t' := by
  cases t <;> cases t' <;> simp_all [table, index]

end SignatureRef

def SignatureTable.owner? : SignatureTable → Option String
  | constructorsOf owner => some owner
  | methodsOf owner => some owner
  | functions => none

def ClassEntry.parameterLists (entry : ClassEntry) : SignatureTable → List (List TemplateParameter)
  | .constructorsOf _ => entry.record.constructors.map (·.templateParams)
  | .methodsOf _ => entry.record.methods.map (·.templateParams)
  | .functions => []

def ClassEntry.withSignature (entry : ClassEntry) (method : Method) : SignatureTable → ClassEntry
  | .constructorsOf _ => { entry with record.constructors := entry.record.constructors ++ [method] }
  | .methodsOf _ => { entry with record.methods := entry.record.methods ++ [method] }
  | .functions => entry

theorem ClassEntry.parameterLists_withSignature (entry : ClassEntry) (method : Method) {owner : String}
    {s s' : SignatureTable} (hs : s.owner? = some owner) (hs' : s'.owner? = some owner) :
    (entry.withSignature method s').parameterLists s =
      if s = s' then entry.parameterLists s ++ [method.templateParams] else entry.parameterLists s := by
  cases s' <;> cases s <;> simp_all [withSignature, parameterLists, SignatureTable.owner?]

theorem ClassEntry.fullName_withSignature (entry : ClassEntry) (method : Method) (s : SignatureTable) :
    (entry.withSignature method s).fullName = entry.fullName := by
  cases s <;> rfl

namespace Database

def parameterLists (db : Database) (s : SignatureTable) : List (List TemplateParameter) :=
  match s.owner? with
  | some owner => (db.findClass? owner).elim [] (·.parameterLists s)
  | none => db.functions.map (·.templateParams)

def parameters? (db : Database) (t : SignatureRef) : Option (List TemplateParameter) :=
  (db.parameterLists t.table)[t.index]?

theorem templateParams_eq (db : Database) (t : SignatureRef) : db.templateParams t = (db.parameters? t).getD [] := by
  cases t with
  | constructorOf owner index =>
    simp only [templateParams, parameters?, parameterLists, SignatureRef.table, SignatureRef.index,
      SignatureTable.owner?]
    cases db.findClass? owner with
    | none => simp
    | some entry => cases h : entry.record.constructors[index]? <;> simp [ClassEntry.parameterLists, h]
  | methodOf owner index =>
    simp only [templateParams, parameters?, parameterLists, SignatureRef.table, SignatureRef.index,
      SignatureTable.owner?]
    cases db.findClass? owner with
    | none => simp
    | some entry => cases h : entry.record.methods[index]? <;> simp [ClassEntry.parameterLists, h]
  | function index =>
    simp only [templateParams, parameters?, parameterLists, SignatureRef.table, SignatureRef.index,
      SignatureTable.owner?]
    cases h : db.functions[index]? <;> simp [h]

theorem parameterLists_updateClass (db : Database) {owner : String} {change : ClassEntry → ClassEntry}
    (h : ∀ e, (change e).fullName = e.fullName) (s : SignatureTable) :
    (db.updateClass owner change).parameterLists s =
      if s.owner? = some owner then (db.findClass? owner).elim [] fun e => (change e).parameterLists s
      else db.parameterLists s := by
  unfold parameterLists
  cases hs : s.owner? with
  | none => rfl
  | some name =>
    simp only [findClass?_updateClass db h]
    by_cases hname : name = owner
    · subst hname
      cases db.findClass? name <;> simp
    · simp [hname]

theorem parameterLists_updateTable (db : Database) {owner : String} {change : ClassEntry → ClassEntry}
    {s₀ : SignatureTable} {f : List (List TemplateParameter) → List (List TemplateParameter)}
    (hname : ∀ e, (change e).fullName = e.fullName) (hs₀ : s₀.owner? = some owner)
    (hnone : db.findClass? owner = none → f [] = [])
    (hsome : ∀ e s, db.findClass? owner = some e → s.owner? = some owner →
      (change e).parameterLists s = if s = s₀ then f (e.parameterLists s) else e.parameterLists s)
    (s : SignatureTable) :
    (db.updateClass owner change).parameterLists s =
      if s = s₀ then f (db.parameterLists s) else db.parameterLists s := by
  rw [parameterLists_updateClass db hname]
  by_cases hs : s.owner? = some owner
  · have hlists : db.parameterLists s = (db.findClass? owner).elim [] (·.parameterLists s) := by rw [parameterLists, hs]
    rw [if_pos hs, hlists]
    cases hfind : db.findClass? owner with
    | none => simp [hnone hfind]
    | some e => exact hsome e s hfind hs
  · have hne : s ≠ s₀ := fun heq => hs (heq ▸ hs₀)
    rw [if_neg hs, if_neg hne]

end Database

theorem getElem?_changeAt {α : Type} (change : α → α) : ∀ (n : Nat) (l : List α) (i : Nat),
    (changeAt change n l)[i]? = if i = n then l[i]?.map change else l[i]?
  | _, [], i => by simp [changeAt]
  | 0, a :: rest, 0 => by simp [changeAt]
  | 0, a :: rest, i + 1 => by simp [changeAt]
  | n + 1, a :: rest, 0 => by simp [changeAt]
  | n + 1, a :: rest, i + 1 => by simp [changeAt, getElem?_changeAt change n rest i]

theorem map_changeAt {α β : Type} (view : α → β) {change : α → α} {change' : β → β}
    (h : ∀ a, view (change a) = change' (view a)) : ∀ (n : Nat) (l : List α),
    (changeAt change n l).map view = changeAt change' n (l.map view)
  | _, [] => by simp [changeAt]
  | 0, a :: rest => by simp [changeAt, h]
  | n + 1, a :: rest => by simp [changeAt, map_changeAt view h n rest]

namespace Database

theorem parameterLists_changeTemplateParams (db : Database)
    (change : List TemplateParameter → List TemplateParameter) (t : SignatureRef) (s : SignatureTable) :
    (db.changeTemplateParams change t).parameterLists s =
      if s = t.table then changeAt change t.index (db.parameterLists s) else db.parameterLists s := by
  have hmethods (n : Nat) (l : List Method) :
      (changeAt (fun m => { m with templateParams := change m.templateParams }) n l).map (·.templateParams) =
        changeAt change n (l.map (·.templateParams)) := by
    apply map_changeAt
    exact fun _ => rfl
  have hfunctions (n : Nat) (l : List FreeFunction) :
      (changeAt (fun f => { f with templateParams := change f.templateParams }) n l).map (·.templateParams) =
        changeAt change n (l.map (·.templateParams)) := by
    apply map_changeAt
    exact fun _ => rfl
  have hnil (n : Nat) : changeAt change n [] = [] := by cases n <;> rfl
  cases t with
  | function index =>
    cases s with
    | functions => exact hfunctions index db.functions
    | _ => rfl
  | constructorOf owner index =>
    refine parameterLists_updateTable db (by exact fun _ => rfl) rfl (fun _ => hnil index) (fun e s _ hs => ?_) s
    cases s with
    | constructorsOf name =>
      cases hs
      exact (hmethods index e.record.constructors).trans (if_pos rfl).symm
    | _ => rfl
  | methodOf owner index =>
    refine parameterLists_updateTable db (by exact fun _ => rfl) rfl (fun _ => hnil index) (fun e s _ hs => ?_) s
    cases s with
    | methodsOf name =>
      cases hs
      exact (hmethods index e.record.methods).trans (if_pos rfl).symm
    | _ => rfl

theorem parameters?_changeTemplateParams (db : Database)
    (change : List TemplateParameter → List TemplateParameter) (t t' : SignatureRef) :
    (db.changeTemplateParams change t').parameters? t =
      if t = t' then (db.parameters? t).map change else db.parameters? t := by
  rw [parameters?, parameterLists_changeTemplateParams]
  by_cases ht : t = t'
  · simp [ht, getElem?_changeAt, parameters?]
  · rw [if_neg ht]
    by_cases htable : t.table = t'.table
    · have hindex : t.index ≠ t'.index := fun h => ht (SignatureRef.eq_of_table htable h)
      rw [if_pos htable, getElem?_changeAt, if_neg hindex, parameters?]
    · rw [if_neg htable, parameters?]

end Database

/-! ## What declarations leave of them -/

/-- Every signature keeps its position and its template parameters. -/
def Database.KeepsParameters (db db' : Database) : Prop := ∀ s, db.parameterLists s <+: db'.parameterLists s

namespace Database.KeepsParameters

theorem refl (db : Database) : db.KeepsParameters db := fun _ => List.prefix_rfl

theorem of_same {db db' : Database} (hclasses : db'.classes = db.classes) (hfunctions : db'.functions = db.functions) :
    db.KeepsParameters db' := by
  intro s
  simp only [parameterLists, findClass?, hclasses, hfunctions]
  exact List.prefix_rfl

theorem parameters? {db db' : Database} (h : db.KeepsParameters db') {t : SignatureRef}
    {params : List TemplateParameter} (ht : db.parameters? t = some params) : db'.parameters? t = some params := by
  obtain ⟨added, hadded⟩ := h t.table
  have hindex := (List.getElem?_eq_some_iff.mp ht).1
  rw [Database.parameters?, ← hadded, List.getElem?_append_left hindex]
  exact ht

theorem updateClass (db : Database) (owner : String) {change : ClassEntry → ClassEntry}
    (hname : ∀ e, (change e).fullName = e.fullName)
    (h : ∀ (e : ClassEntry) (s : SignatureTable), e.parameterLists s <+: (change e).parameterLists s) :
    db.KeepsParameters (db.updateClass owner change) := by
  intro s
  rw [parameterLists_updateClass db hname]
  split
  · rename_i hs
    simp only [parameterLists, hs]
    cases db.findClass? owner with
    | none => exact List.prefix_rfl
    | some e => exact h e s
  · exact List.prefix_rfl

theorem addClass (db : Database) (c : Class) (place : Place) (access : Access) :
    db.KeepsParameters (db.addClass c place access).db := by
  intro s
  unfold Database.addClass
  split
  · refine updateClass db c.fullName (fun e => (redeclare_mark e c place access).1) ?_ s
    intro e s
    unfold redeclare
    split <;> exact List.prefix_rfl
  · unfold parameterLists
    cases s.owner? with
    | none => exact List.prefix_rfl
    | some name =>
      simp only [findClass?, List.find?_append]
      cases db.classes.find? (·.fullName == name) with
      | none => exact List.nil_prefix
      | some e => exact List.prefix_rfl

theorem addFunction (db : Database) (f : FreeFunction) : db.KeepsParameters (db.addFunction f) := by
  intro s
  unfold Database.addFunction
  split
  · exact List.prefix_rfl
  · cases s with
    | functions =>
      show _ <+: (db.functions ++ [f]).map _
      rw [List.map_append]
      exact List.prefix_append ..
    | _ => exact List.prefix_rfl

end Database.KeepsParameters

namespace Collector

theorem Adds.keepsParameters {c : Collector} {owner : ClassEntry} {decl : Decl} {change : ClassEntry → ClassEntry}
    (h : c.Adds owner decl change) (e : ClassEntry) :
    (change e).fullName = e.fullName ∧ ∀ s, e.parameterLists s <+: (change e).parameterLists s := by
  refine ⟨by cases h <;> rfl, ?_⟩
  intro s
  cases h with
  | constructor signature =>
    cases s with
    | constructorsOf =>
      simp only [ClassEntry.parameterLists, List.map_append]
      exact List.prefix_append ..
    | _ => exact List.prefix_rfl
  | method signature =>
    cases s with
    | methodsOf =>
      simp only [ClassEntry.parameterLists, List.map_append]
      exact List.prefix_append ..
    | _ => exact List.prefix_rfl
  | _ => cases s <;> exact List.prefix_rfl

theorem Writes.keepsParameters {c : Collector} {decl : Decl} {parent : Site} {db : Database}
    (h : c.Writes decl parent db) : c.db.KeepsParameters db := by
  cases h with
  | nothing => exact .refl c.db
  | ofNamespace =>
    unfold Database.addNamespace
    split <;> exact .of_same rfl rfl
  | ofClass => exact .addClass _ _ _ _
  | ofEnum =>
    unfold Database.addEnum
    split <;> exact .of_same rfl rfl
  | ofConstant => exact .of_same rfl rfl
  | ofAlias =>
    unfold Database.addType
    split <;> exact .of_same rfl rfl
  | ofFunction => exact .addFunction _ _
  | ofMember owner kind known adds =>
    exact .updateClass _ _ (fun e => (adds.keepsParameters e).1) fun e => (adds.keepsParameters e).2

theorem settleClass_keepsParameters (c : Collector) (decl : Decl) :
    c.db.KeepsParameters (c.settleClass decl).db := by
  unfold settleClass
  split
  · exact .refl c.db
  · simp only
    split
    · exact .updateClass _ _ (fun _ => rfl) fun e s => by cases s <;> exact List.prefix_rfl
    · exact .refl c.db

end Collector

end SymbolIndex
