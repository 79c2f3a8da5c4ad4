import SymbolIndex.Proofs.Layers
import SymbolIndex.Proofs.SplitJoin
import SymbolIndex.Proofs.TemplateParameters
import SymbolIndex.Proofs.TypeTable

/-!
# Defaults of template parameters

Below a class template a parameter waits for its default for one event, and any event ends the wait. Below a
function template the references to the namespaces in front of a type do not. So the records agree on the
parameters whose defaults have no namespace in front, and on no others.
-/

namespace SymbolIndex

/-! ## Parameters as they are written -/

def TypeTree.className (tree : TypeTree) : String :=
  match tree.base with
  | .named written _ (some a) => Scope.join (a.scopePath ++ [a.spelling]) ++ written.arguments
  | _ => ""

/-- The type's declaration is that of a class, and the type table gives the class for its path and name. -/
def TypeTree.NamesClass (tree : TypeTree) (db : Database) : Prop :=
  ∃ written kind a, tree.base = .named written kind (some a) ∧ a.Nameable ∧
    ∃ e ∈ db.classes, e.fullName = Scope.join (a.scopePath ++ [a.spelling]) ∧
      ∃ known, a.entryIn? db.types = some known ∧ known.fullName = e.fullName ∧ known.templateArguments = ""

structure WrittenDefault where
  qualifiers : List Decl := []
  reference : Decl

structure WrittenParameter where
  decl : Decl
  default : Option WrittenDefault := none

def WrittenDefault.name (d : WrittenDefault) : String := d.reference.type.className

namespace WrittenParameter

def references (p : WrittenParameter) : List Decl := p.default.elim [] fun d => d.qualifiers ++ [d.reference]

def tree (p : WrittenParameter) : Decl × Forest := (p.decl, .ofList (p.references.map (·, .nil)))

def whole (p : WrittenParameter) : TemplateParameter :=
  { name := p.decl.spelling, default := p.default.map WrittenDefault.name }

def unqualified (p : WrittenParameter) : TemplateParameter :=
  { name := p.decl.spelling, default := (p.default.filter (·.qualifiers.isEmpty)).map WrittenDefault.name }

/-- A type parameter in a file that counts; its default, if it has one, is a class other than `::` and its name. -/
structure StandsIn (p : WrittenParameter) (c : Collector) : Prop where
  kind : p.decl.kind = .templateTypeParameter
  qualifiers : ∀ d ∈ p.default, ∀ q ∈ d.qualifiers, q.kind = .namespaceRef
  reference : ∀ d ∈ p.default, d.reference.kind = .typeRef
  other : ∀ d ∈ p.default, d.name ≠ "::" ++ p.decl.spelling
  known : ∀ d ∈ p.default, d.reference.type.NamesClass c.db
  counted : ∀ d ∈ p.decl :: p.references, c.counts d = true

theorem StandsIn.references {p : WrittenParameter} {c : Collector} (h : p.StandsIn c) :
    ∀ r ∈ p.references, r.kind = .typeRef ∨ r.kind = .namespaceRef := by
  intro r hr
  cases hdefault : p.default with
  | none => simp [WrittenParameter.references, hdefault] at hr
  | some d =>
    simp only [WrittenParameter.references, hdefault, Option.elim_some, List.mem_append, List.mem_singleton] at hr
    rcases hr with hr | rfl
    · exact Or.inr (h.qualifiers d hdefault r hr)
    · exact Or.inl (h.reference d hdefault)

theorem unqualified_eq_whole_iff (p : WrittenParameter) :
    p.unqualified = p.whole ↔ ∀ d ∈ p.default, d.qualifiers = [] := by
  unfold unqualified whole
  cases p.default with
  | none => simp
  | some d =>
    by_cases h : d.qualifiers = []
    · simp [h, Option.filter]
    · simp [h, Option.filter]

end WrittenParameter

theorem TypeTree.NamesClass.solve {tree : TypeTree} {db : Database} (h : tree.NamesClass db) (scope : List String) :
    (TypeSource.reported tree).solve db.types scope = tree.className := by
  obtain ⟨written, kind, a, hbase, ha, e, -, hname, known, hentry, hfull, hplain⟩ := h
  rw [hname] at hfull
  have hne : Scope.join (a.scopePath ++ [a.spelling]) ≠ "" := by
    rw [Scope.join_append_singleton]
    simp
  rw [TypeSource.solve, TypeSource.resolve_named hbase ha hentry, TypeRef.ofTree_named hbase ha, className, hbase]
  simp only [TypeRef.canonicalName, TypeRef.addLayer, TypeRef.refineBy, hfull, hplain, if_neg hne]
  split
  · rename_i hnone
    rw [hnone]
  · rfl

theorem changeLast_concat {α : Type} (change : α → α) (l : List α) (a : α) :
    changeLast change (l ++ [a]) = l ++ [change a] := by
  induction l with
  | nil => rfl
  | cons b l ih =>
    cases l with
    | nil => rfl
    | cons b' l => exact congrArg (b :: ·) ih

theorem TemplateParameter.withDefault_of_ne {param : TemplateParameter} {value : String}
    (h : value ≠ "::" ++ param.name) : param.withDefault value = { param with default := some value } := if_neg h

/-! ## Walks from state to state -/

namespace Collector

/-- Trees below a declaration are walked from one state to another, and the walk goes on behind them. -/
def WalksTo (c : Collector) (trees : List (Decl × Forest)) (parent : Decl) (c' : Collector) : Prop :=
  ∀ rest notes, ∃ notes', (Forest.ofList (trees ++ rest)).walk step parent (c, notes) =
    (Forest.ofList rest).walk step parent (c', notes')

variable {c c₁ c₂ : Collector} {decl parent : Decl} {tree : Decl × Forest} {trees : List (Decl × Forest)}

theorem WalksTo.nil : c.WalksTo [] parent c := fun _ notes => ⟨notes, rfl⟩

theorem WalksTo.cons (h : c.WalksTo [tree] parent c₁) (h' : c₁.WalksTo trees parent c₂) :
    c.WalksTo (tree :: trees) parent c₂ := by
  intro rest notes
  obtain ⟨notes₁, h₁⟩ := h (trees ++ rest) notes
  obtain ⟨notes₂, h₂⟩ := h' rest notes₁
  exact ⟨notes₂, h₁.trans h₂⟩

theorem WalksTo.node (answer : (c.visit decl parent.site).answer = .ok .enter)
    (h : (c.visit decl parent.site).collector.WalksTo trees decl c₁) :
    c.WalksTo [(decl, .ofList trees)] parent c₁ := by
  intro rest notes
  obtain ⟨notes₁, h₁⟩ := h [] (notes ++ (c.visit decl parent.site).notes)
  refine ⟨notes₁, ?_⟩
  rw [List.append_nil] at h₁
  simp only [List.cons_append, List.nil_append, Forest.ofList, Forest.walk, step, answer]
  simp only [Forest.ofList, Forest.walk] at h₁
  rw [h₁]

theorem WalksTo.leaf {d : Directive} (answer : (c.visit decl parent.site).answer = .ok d) :
    c.WalksTo [(decl, .nil)] parent (c.visit decl parent.site).collector := by
  cases d with
  | stop => exact absurd answer (c.visit_not_stop decl parent.site)
  | enter => exact WalksTo.node answer .nil
  | pass =>
    intro rest notes
    refine ⟨notes ++ (c.visit decl parent.site).notes, ?_⟩
    simp only [List.cons_append, List.nil_append, Forest.ofList, Forest.walk, step, answer]

theorem Alike.counts (h : c.Alike c₁) (decl : Decl) : c₁.counts decl = c.counts decl :=
  counts_congr h.base h.roots decl

theorem Alike.defaultValue (h : c.Alike c₁) (named : decl.type.NamesClass c.db) (scope : List String) :
    c₁.defaultValue decl scope = decl.type.className := by
  rw [Collector.defaultValue, Database.types_of_outline h.outline]
  exact named.solve scope

theorem settleClass_of_other (c : Collector) (h : decl.kind ≠ .typeRef) :
    c.settleClass decl = { c with openClass := none } := by
  obtain ⟨db, base, roots, openClass, openFunction⟩ := c
  unfold settleClass
  cases openClass with
  | none => rfl
  | some owner => simp only [if_neg h]

theorem settleClass_of_closed (h : c.openClass = none) (decl : Decl) : c.settleClass decl = c := by
  unfold settleClass
  rw [h]

theorem settleClass_openFunction (c : Collector) (decl : Decl) :
    (c.settleClass decl).openFunction = c.openFunction := by
  unfold settleClass
  split <;> rfl

theorem visit_of_taken {parent : Site} (counted : c.counts decl = true) {d : Directive}
    (taken : (c.settleClass decl).offerFunction decl parent = (c₁, some d)) :
    c.visit decl parent = c₁.answer c₁.db d [] := by
  unfold counts at counted
  unfold visit
  rw [if_pos counted, taken]

/-! ## Below a class template -/

section
variable (counted : c.counts decl = true) (closed : c.openFunction = none) (parent : Site)
include counted closed

theorem visit_of_functionless : c.visit decl parent = (c.settleClass decl).visitDecl decl parent := by
  have hoffer : (c.settleClass decl).offerFunction decl parent = (c.settleClass decl, none) := by
    unfold offerFunction
    rw [settleClass_openFunction, closed]
  unfold counts at counted
  unfold visit
  rw [if_pos counted, hoffer]

theorem visit_reference (kind : decl.kind = .typeRef ∨ decl.kind = .namespaceRef) :
    (c.visit decl parent).collector = c.settleClass decl ∧ ∃ d, (c.visit decl parent).answer = .ok d := by
  have hinner : decl.kind.standsAlone = false := by rcases kind with h | h <;> rw [h] <;> rfl
  rw [visit_of_functionless counted closed, visitDecl_of_inner _ hinner]
  split
  · rcases kind with h | h <;> simp only [visitMember, h] <;> exact ⟨rfl, _, rfl⟩
  · rcases kind with h | h <;> rw [h, if_neg (by decide)] <;> exact ⟨rfl, _, rfl⟩

end

theorem walksTo_references {refs : List Decl} (kinds : ∀ r ∈ refs, r.kind = .typeRef ∨ r.kind = .namespaceRef)
    (counted : ∀ r ∈ refs, c.counts r = true) (closed : c.openFunction = none) :
    c.WalksTo (refs.map (·, .nil)) parent (refs.foldl settleClass c) := by
  induction refs generalizing c with
  | nil => exact .nil
  | cons r refs ih =>
    obtain ⟨hvisit, d, hanswer⟩ := visit_reference (counted r (List.mem_cons_self ..)) closed parent.site
      (kinds r (List.mem_cons_self ..))
    have hleaf := WalksTo.leaf hanswer
    rw [hvisit] at hleaf
    refine hleaf.cons (ih (fun s hs => kinds s (List.mem_cons_of_mem _ hs)) ?_ ?_)
    · intro s hs
      rw [(c.settleClass_alike r).counts]
      exact counted s (List.mem_cons_of_mem _ hs)
    · rw [settleClass_openFunction, closed]

theorem foldl_settleClass_of_closed (h : c.openClass = none) (refs : List Decl) : refs.foldl settleClass c = c := by
  induction refs with
  | nil => rfl
  | cons r refs ih => rw [List.foldl_cons, settleClass_of_closed h, ih]

end Collector

def Database.classParameters? (db : Database) (owner : String) : Option (List TemplateParameter) :=
  (db.findClass? owner).map (·.record.templateParams)

theorem Database.classParameters?_change (db : Database) (owner : String)
    (change : List TemplateParameter → List TemplateParameter) :
    (db.changeClassTemplateParams owner change).classParameters? owner = (db.classParameters? owner).map change := by
  rw [classParameters?, changeClassTemplateParams, findClass?_updateClass db (by exact fun _ => rfl), if_pos rfl,
    classParameters?, Option.map_map, Option.map_map]
  rfl

namespace Collector

def withParameter (c : Collector) (owner name : String) : Collector :=
  { c with
    db := c.db.changeClassTemplateParams owner (· ++ [{ name := name }])
    openClass := some owner }

structure InClass (start : Collector) (owner : String) (c : Collector) (params : List TemplateParameter) : Prop where
  alike : start.Alike c
  closed : c.openFunction = none
  params : c.db.classParameters? owner = some params

namespace InClass

variable {start c : Collector} {template : Decl} {owner name : String} {params : List TemplateParameter}
  {p : WrittenParameter}

theorem opened (h : start.InClass owner c params) (name : String) :
    start.InClass owner (c.withParameter owner name) (params ++ [{ name := name }]) where
  alike := h.alike.trans ⟨c.db.changeClassTemplateParams_outline owner _, rfl, rfl⟩
  closed := h.closed
  params := by
    rw [withParameter, Database.classParameters?_change, h.params]
    rfl

theorem closeClass (h : start.InClass owner c params) : start.InClass owner { c with openClass := none } params :=
  ⟨⟨h.alike.outline, h.alike.base, h.alike.roots⟩, h.closed, h.params⟩

theorem settled (h : start.InClass owner c params) {d : WrittenDefault} (kind : d.reference.kind = .typeRef)
    (known : d.reference.type.NamesClass start.db) (other : d.name ≠ "::" ++ name) :
    start.InClass owner ((c.withParameter owner name).settleClass d.reference)
      (params ++ [{ name := name, default := some d.name }]) where
  alike := (h.opened name).alike.trans (settleClass_alike _ _)
  closed := by rw [settleClass_openFunction, (h.opened name).closed]
  params := by
    have hvalue := (h.opened name).alike.defaultValue known (Scope.split owner)
    have hparam : ({ name := name } : TemplateParameter).withDefault d.name =
        { name := name, default := some d.name } := TemplateParameter.withDefault_of_ne other
    unfold settleClass
    simp only [withParameter, kind, if_true]
    rw [Database.classParameters?_change, Database.classParameters?_change, h.params, Option.map_some, Option.map_some,
      changeLast_concat]
    simp only [withParameter] at hvalue
    rw [hvalue, ← hparam]
    rfl

theorem visit_parameter (h : start.InClass owner c params)
    (around : (start.db.classAt? template.place).map ClassEntry.fullName = some owner)
    (kind : p.decl.kind = .templateTypeParameter) (counted : c.counts p.decl = true) :
    (c.visit p.decl template.site).answer = .ok .enter ∧
      (c.visit p.decl template.site).collector = c.withParameter owner p.decl.spelling := by
  have hinner : p.decl.kind.standsAlone = false := by rw [kind]; rfl
  have hother : p.decl.kind ≠ .typeRef := by rw [kind]; decide
  rw [Database.classAt?_name, ← (Database.marks_of_outline h.alike.outline).2, ← Database.classAt?_name] at around
  obtain ⟨entry, hentry, rfl⟩ := Option.map_eq_some_iff.mp around
  have hentry : ({ c with openClass := none } : Collector).db.classAt? template.site.place = some entry := hentry
  rw [visit_of_functionless counted h.closed, settleClass_of_other c hother, visitDecl_of_inner _ hinner, hentry]
  simp only [visitMember, kind]
  exact ⟨rfl, rfl⟩

theorem parameter (h : start.InClass owner c params)
    (around : (start.db.classAt? template.place).map ClassEntry.fullName = some owner) (stands : p.StandsIn start) :
    ∃ c', c.WalksTo [p.tree] template c' ∧ start.InClass owner c' (params ++ [p.unqualified]) := by
  have hopened := h.opened p.decl.spelling
  obtain ⟨hanswer, hvisit⟩ := h.visit_parameter around stands.kind
    (by rw [h.alike.counts]; exact stands.counted _ (List.mem_cons_self ..))
  have hwalk : c.WalksTo [p.tree] template
      (p.references.foldl settleClass (c.withParameter owner p.decl.spelling)) := by
    apply WalksTo.node hanswer
    rw [hvisit]
    apply walksTo_references stands.references
    · intro r hr
      rw [hopened.alike.counts]
      exact stands.counted r (List.mem_cons_of_mem _ hr)
    · exact hopened.closed
  refine ⟨_, hwalk, ?_⟩
  unfold WrittenParameter.references WrittenParameter.unqualified
  cases hdefault : p.default with
  | none => exact hopened
  | some d =>
    cases hqualifiers : d.qualifiers with
    | nil =>
      simp only [Option.elim_some, hqualifiers, List.nil_append, List.foldl_cons, List.foldl_nil, Option.filter,
        List.isEmpty_nil, if_true, Option.map_some]
      exact h.settled (stands.reference d hdefault) (stands.known d hdefault) (stands.other d hdefault)
    | cons q qualifiers =>
      have hother : q.kind ≠ .typeRef := by
        rw [stands.qualifiers d hdefault q (by rw [hqualifiers]; exact List.mem_cons_self ..)]
        decide
      simp only [Option.elim_some, hqualifiers, List.cons_append, List.foldl_cons, settleClass_of_other _ hother]
      rw [foldl_settleClass_of_closed rfl]
      simpa [Option.filter, hqualifiers] using hopened.closeClass

theorem parameters (h : start.InClass owner c params)
    (around : (start.db.classAt? template.place).map ClassEntry.fullName = some owner) {ps : List WrittenParameter}
    (stand : ∀ p ∈ ps, p.StandsIn start) :
    ∃ c', c.WalksTo (ps.map WrittenParameter.tree) template c' ∧
      start.InClass owner c' (params ++ ps.map WrittenParameter.unqualified) := by
  induction ps generalizing c params with
  | nil => exact ⟨c, .nil, by simpa using h⟩
  | cons p ps ih =>
    obtain ⟨c₁, hwalk₁, h₁⟩ := h.parameter around (stand p (List.mem_cons_self ..))
    obtain ⟨c₂, hwalk₂, h₂⟩ := ih h₁ fun q hq => stand q (List.mem_cons_of_mem _ hq)
    exact ⟨c₂, hwalk₁.cons hwalk₂, by simpa using h₂⟩

end InClass

/-! ## Below a function template -/

structure InFunction (start : Collector) (t : SignatureRef) (c : Collector) (params : List TemplateParameter) :
    Prop where
  alike : start.Alike c
  slot : ∃ scope last, c.openFunction = some ⟨t, scope, last⟩
  params : c.db.parameters? t = some params

structure BelowParameter (start : Collector) (t : SignatureRef) (place : Place) (c : Collector)
    (params : List TemplateParameter) : Prop where
  alike : start.Alike c
  settled : c.openClass = none
  slot : ∃ scope, c.openFunction = some ⟨t, scope, some place⟩
  params : c.db.parameters? t = some params

section
variable {start c : Collector} {t : SignatureRef} {params : List TemplateParameter}

theorem BelowParameter.between {place : Place} (h : start.BelowParameter t place c params) :
    start.InFunction t c params := by
  obtain ⟨scope, hslot⟩ := h.slot
  exact ⟨h.alike, ⟨scope, _, hslot⟩, h.params⟩

theorem InFunction.visit_parameter (h : start.InFunction t c params) {decl : Decl}
    (kind : decl.kind = .templateTypeParameter) (counted : c.counts decl = true) (parent : Site) :
    (c.visit decl parent).answer = .ok .enter ∧
      start.BelowParameter t decl.place (c.visit decl parent).collector (params ++ [{ name := decl.spelling }]) := by
  obtain ⟨scope, last, hslot⟩ := h.slot
  have hother : decl.kind ≠ .typeRef := by rw [kind]; decide
  have htaken : (c.settleClass decl).offerFunction decl parent =
      ({ c with
         db := c.db.changeTemplateParams (· ++ [{ name := decl.spelling }]) t
         openClass := none
         openFunction := some ⟨t, scope, some decl.place⟩ }, some .enter) := by
    rw [settleClass_of_other c hother]
    simp only [offerFunction, hslot, kind]
  rw [visit_of_taken counted htaken]
  refine ⟨rfl, h.alike.trans ⟨c.db.changeTemplateParams_outline _ t, rfl, rfl⟩, rfl, ⟨scope, rfl⟩, ?_⟩
  simp only [answer]
  rw [Database.parameters?_changeTemplateParams, if_pos rfl, h.params, Option.map_some]

namespace BelowParameter

variable {decl parent : Decl}

theorem visit_qualifier (h : start.BelowParameter t parent.place c params) (kind : decl.kind = .namespaceRef)
    (counted : c.counts decl = true) :
    (c.visit decl parent.site).answer = .ok .pass ∧ (c.visit decl parent.site).collector = c := by
  obtain ⟨scope, hslot⟩ := h.slot
  have htaken : (c.settleClass decl).offerFunction decl parent.site = (c, some .pass) := by
    rw [settleClass_of_closed h.settled]
    simp only [offerFunction, hslot, kind]
  rw [visit_of_taken counted htaken]
  exact ⟨rfl, rfl⟩

theorem visit_reference {param : TemplateParameter} (h : start.BelowParameter t parent.place c (params ++ [param]))
    (kind : decl.kind = .typeRef) (counted : c.counts decl = true) (known : decl.type.NamesClass start.db)
    (bare : param.default = none) (other : decl.type.className ≠ "::" ++ param.name) :
    (c.visit decl parent.site).answer = .ok .pass ∧
      start.BelowParameter t parent.place (c.visit decl parent.site).collector
        (params ++ [{ param with default := some decl.type.className }]) := by
  obtain ⟨scope, hslot⟩ := h.slot
  have hparams : c.db.templateParams t = params ++ [param] := by rw [Database.templateParams_eq, h.params]; rfl
  have hvalue := h.alike.defaultValue known scope
  have hsame : parent.site.place.same parent.place = true := Place.same_refl _
  have hfilled : (!(params ++ [param]).isEmpty && true) = true := by simp
  have hbare : (((params ++ [param]).getLast?.bind (·.default)).isNone) = true := by simp [bare]
  have htaken : (c.settleClass decl).offerFunction decl parent.site =
      ({ c with db := c.db.changeTemplateParams (changeLast (·.withDefault decl.type.className)) t },
        some .pass) := by
    rw [settleClass_of_closed h.settled]
    simp only [offerFunction, hslot, kind, hparams, hvalue, Option.any_some, hsame]
    rw [if_pos hfilled, if_pos hbare]
  rw [visit_of_taken counted htaken]
  refine ⟨rfl, h.alike.trans ⟨c.db.changeTemplateParams_outline _ t, rfl, rfl⟩, h.settled, ⟨scope, hslot⟩, ?_⟩
  simp only [answer]
  rw [Database.parameters?_changeTemplateParams, if_pos rfl, h.params, Option.map_some, changeLast_concat,
    TemplateParameter.withDefault_of_ne other]

theorem walksTo_qualifiers (h : start.BelowParameter t parent.place c params) {qualifiers : List Decl}
    (kinds : ∀ q ∈ qualifiers, q.kind = .namespaceRef) (counted : ∀ q ∈ qualifiers, c.counts q = true)
    {trees : List (Decl × Forest)} {c' : Collector} (further : c.WalksTo trees parent c') :
    c.WalksTo (qualifiers.map (·, .nil) ++ trees) parent c' := by
  induction qualifiers with
  | nil => exact further
  | cons q qualifiers ih =>
    obtain ⟨hanswer, hsame⟩ := h.visit_qualifier (kinds q (List.mem_cons_self ..)) (counted q (List.mem_cons_self ..))
    have hleaf := WalksTo.leaf hanswer
    rw [hsame] at hleaf
    apply hleaf.cons
    exact ih (fun r hr => kinds r (List.mem_cons_of_mem _ hr)) fun r hr => counted r (List.mem_cons_of_mem _ hr)

end BelowParameter

namespace InFunction

theorem parameter (h : start.InFunction t c params) (template : Decl) {p : WrittenParameter}
    (stands : p.StandsIn start) :
    ∃ c', c.WalksTo [p.tree] template c' ∧ start.InFunction t c' (params ++ [p.whole]) := by
  obtain ⟨hanswer, hbelow⟩ := h.visit_parameter stands.kind
    (by rw [h.alike.counts]; exact stands.counted _ (List.mem_cons_self ..)) template.site
  have hcounted : ∀ r ∈ p.references, (c.visit p.decl template.site).collector.counts r = true := by
    intro r hr
    rw [hbelow.alike.counts]
    exact stands.counted r (List.mem_cons_of_mem _ hr)
  unfold WrittenParameter.tree WrittenParameter.whole
  unfold WrittenParameter.references at hcounted ⊢
  cases hdefault : p.default with
  | none => exact ⟨_, .node hanswer .nil, hbelow.between⟩
  | some d =>
    rw [hdefault] at hcounted
    obtain ⟨hpass, hafter⟩ := hbelow.visit_reference (stands.reference d hdefault) (hcounted _ (by simp))
      (stands.known d hdefault) rfl (stands.other d hdefault)
    refine ⟨_, .node hanswer ?_, hafter.between⟩
    rw [Option.elim_some, List.map_append]
    apply hbelow.walksTo_qualifiers (stands.qualifiers d hdefault)
    · exact fun q hq => hcounted q (by simp [hq])
    · exact .leaf hpass

theorem parameters (h : start.InFunction t c params) (template : Decl) {ps : List WrittenParameter}
    (stand : ∀ p ∈ ps, p.StandsIn start) :
    ∃ c', c.WalksTo (ps.map WrittenParameter.tree) template c' ∧
      start.InFunction t c' (params ++ ps.map WrittenParameter.whole) := by
  induction ps generalizing c params with
  | nil => exact ⟨c, .nil, by simpa using h⟩
  | cons p ps ih =>
    obtain ⟨c₁, hwalk₁, h₁⟩ := h.parameter template (stand p (List.mem_cons_self ..))
    obtain ⟨c₂, hwalk₂, h₂⟩ := ih h₁ fun q hq => stand q (List.mem_cons_of_mem _ hq)
    exact ⟨c₂, hwalk₁.cons hwalk₂, by simpa using h₂⟩

end InFunction

end

end Collector

/-! ## New templates -/

theorem Database.addClass_of_new (db : Database) {c : Class} {place : Place} (unknown : db.findClass? c.fullName = none)
    (fresh : db.classAt? place = none) (access : Access) :
    (db.addClass c place access).entersMembers = true ∧
      ((db.addClass c place access).db.classAt? place).map ClassEntry.fullName = some c.fullName := by
  have hplace : (ClassEntry.mk c access [place]).declaredAt place = true := by
    simp [ClassEntry.declaredAt, Place.same_refl]
  unfold classAt? at fresh
  unfold addClass
  rw [unknown]
  refine ⟨rfl, ?_⟩
  simp only [classAt?, List.find?_append, fresh, Option.none_or, List.find?_singleton, hplace, if_true, Option.map_some]
  rfl

theorem Collector.visitClass_cases (c : Collector) (decl : Decl) (parent : Site) :
    (c.visitClass decl parent).collector = c ∨ ∃ scope, c.visitClass decl parent =
      let added := c.db.addClass (c.classRecord decl scope) decl.place decl.classKey.access
      c.answer added.db (if added.entersMembers then .enter else .pass) added.notes := by
  unfold visitClass
  simp only
  split
  · exact Or.inl rfl
  · split
    · exact Or.inl rfl
    · exact Or.inl rfl
    · exact Or.inr ⟨_, rfl⟩

namespace Moment

structure RegistersTemplate (m : Moment) (owner : String) : Prop where
  kind : m.decl.kind = .classTemplate
  fresh : m.before.db.classAt? m.decl.place = none
  unknown : m.before.db.findClass? owner = none
  known : m.after.db.findClass? owner ≠ none

variable {m : Moment} {owner : String} {t : SignatureRef}

theorem RegistersTemplate.opens (h : m.RegistersTemplate owner) :
    m.outcome.answer = .ok .enter ∧ m.after.InClass owner m.after [] ∧
      (m.after.db.classAt? m.decl.place).map ClassEntry.fullName = some owner := by
  have hcounted : m.before.counts m.decl = true := by
    apply counted_of_changed
    intro hsame
    exact h.known (hsame ▸ h.unknown)
  have hvisit : m.outcome = m.before.closeTemplates.visitClass m.decl m.parent.site := by
    rw [outcome, Collector.visit_of_untaken hcounted (by rw [h.kind]; rfl)]
    simp only [Collector.visitDecl, h.kind]
  have hknown := h.known
  rw [after, hvisit] at hknown ⊢
  rcases m.before.closeTemplates.visitClass_cases m.decl m.parent.site with hsame | ⟨scope, hscope⟩
  · rw [hsame] at hknown
    exact absurd h.unknown hknown
  · rw [hscope] at hknown ⊢
    have hfull : owner = (m.before.closeTemplates.classRecord m.decl scope).fullName := by
      by_contra hne
      have hunchanged := m.before.db.findClass?_addClass (m.before.closeTemplates.classRecord m.decl scope) m.decl.place
        m.decl.classKey.access owner
      rw [if_neg hne, h.unknown] at hunchanged
      exact hknown hunchanged
    subst hfull
    have hfound := m.before.db.findClass?_addClass (m.before.closeTemplates.classRecord m.decl scope) m.decl.place
      m.decl.classKey.access (m.before.closeTemplates.classRecord m.decl scope).fullName
    rw [if_pos rfl, h.unknown] at hfound
    obtain ⟨henters, hplaced⟩ := m.before.db.addClass_of_new h.unknown h.fresh m.decl.classKey.access
    refine ⟨?_, ⟨.refl _, rfl, ?_⟩, hplaced⟩
    · exact congrArg (fun enters => Except.ok (if enters = true then Directive.enter else .pass)) henters
    · exact congrArg (Option.map (·.record.templateParams)) hfound

theorem RecordsTemplate.inFunction (h : m.RecordsTemplate t) (unique : m.before.db.UniqueClasses) :
    m.outcome.answer = .ok .enter ∧ m.after.InFunction t m.after [] := by
  obtain ⟨henter, hreads⟩ := h.opens unique
  obtain ⟨params, hparams, hnames⟩ := hreads.known
  obtain rfl := List.map_eq_nil_iff.mp hnames
  refine ⟨henter, .refl _, ?_, hparams⟩
  have hslot := hreads.slot
  unfold Collector.slotOf at hslot
  obtain ⟨template, hopen, hlast⟩ := Option.bind_eq_some_iff.mp hslot
  split at hlast
  · rename_i htarget
    subst htarget
    exact ⟨template.scope, template.lastParameter, hopen⟩
  · cases hlast

end Moment

/-- Let type parameters with defaults stand first below a new class template, and the same below a new function
template. The function's record gets each with the full name of its default's class, and the class's record gets
those names whose references have no namespace in front. So the lists are the same just if none has one. -/
theorem unqualified_defaults_agree {m m' : Moment} {owner : String} {t : SignatureRef}
    (registers : m.RegistersTemplate owner) (records : m'.RecordsTemplate t) (unique : m'.before.db.UniqueClasses)
    {ps : List WrittenParameter} (stand : ∀ p ∈ ps, p.StandsIn m.after) (stand' : ∀ p ∈ ps, p.StandsIn m'.after) :
    m.outcome.answer = .ok .enter ∧ m'.outcome.answer = .ok .enter ∧
    (∃ c, m.after.WalksTo (ps.map WrittenParameter.tree) m.decl c ∧
      c.db.classParameters? owner = some (ps.map WrittenParameter.unqualified)) ∧
    (∃ c, m'.after.WalksTo (ps.map WrittenParameter.tree) m'.decl c ∧
      c.db.parameters? t = some (ps.map WrittenParameter.whole)) ∧
    (ps.map WrittenParameter.unqualified = ps.map WrittenParameter.whole ↔
      ∀ p ∈ ps, ∀ d ∈ p.default, d.qualifiers = []) := by
  obtain ⟨henter, hclass, haround⟩ := registers.opens
  obtain ⟨henter', hfunction⟩ := records.inFunction unique
  obtain ⟨c, hwalk, hc⟩ := hclass.parameters haround stand
  obtain ⟨c', hwalk', hc'⟩ := hfunction.parameters m'.decl stand'
  refine ⟨henter, henter', ⟨c, hwalk, hc.params⟩, ⟨c', hwalk', hc'.params⟩, ?_⟩
  simp only [List.map_inj_left, WrittenParameter.unqualified_eq_whole_iff]

namespace QualifiedDefaults

def around : Decl := (Decl.wholeFile 0).within 1 .namespaceDecl "N"
def known : Decl := around.within 2 .structDecl "S"

def param (name : String) (serial : Nat) : Decl := (Decl.wholeFile 0).within serial .templateTypeParameter name

def toKnown (serial : Nat) : Decl :=
  { (Decl.wholeFile 0).within serial .typeRef "struct N::S" with type := .named ⟨"N::S", false⟩ .record (some known.site) }

-- `class T = N::S`, as it is written outside of `N` and inside
def qualified : WrittenParameter := ⟨param "T" 3, some ⟨[(Decl.wholeFile 0).within 4 .namespaceRef "N"], toKnown 5⟩⟩
def plain : WrittenParameter := ⟨param "U" 6, some ⟨[], toKnown 7⟩⟩
def bare : WrittenParameter := ⟨param "V" 8, none⟩

def box : Decl := (Decl.wholeFile 0).within 9 .classTemplate "Box"
def function : Decl := (Decl.wholeFile 0).within 10 .functionTemplate "f"

def unit (ps : List WrittenParameter) : SourceUnit where
  root := .wholeFile 0
  forest := .ofList [(around, .ofList [(known, .nil)]), (box, .ofList (ps.map WrittenParameter.tree)),
    (function, .ofList (ps.map WrittenParameter.tree))]

def all : List WrittenParameter := [qualified, plain, bare]

def events : List Moment := (Collector.start "/" [] {}).history [unit all]

def state : Collector := (Collector.start "/" [] {}).collectAll [unit [qualified]]

theorem stand {c : Collector} (counted : ∀ p ∈ all, ∀ d ∈ p.decl :: p.references, c.counts d = true)
    (known : ∃ e ∈ c.db.classes, e.fullName = "::N::S" ∧ known.site.entryIn? c.db.types = some e.tableEntry) :
    ∀ p ∈ all, p.StandsIn c := by
  obtain ⟨e, he, hname, hentry⟩ := known
  have hclass : (toKnown 0).type.NamesClass c.db :=
    ⟨_, _, _, rfl, ⟨by decide, by decide, by decide⟩, e, he, hname, _, hentry, rfl, rfl⟩
  have hknown : ∀ p ∈ all, ∀ d ∈ p.default, d.reference.type.NamesClass c.db := by
    simp only [all, List.forall_mem_cons]
    refine ⟨?_, ?_, by simp [bare], by simp⟩
    · rintro d ⟨⟩
      exact hclass
    · rintro d ⟨⟩
      exact hclass
  have hkinds : ∀ p ∈ all, p.decl.kind = .templateTypeParameter ∧
      (∀ d ∈ p.default, ∀ q ∈ d.qualifiers, q.kind = .namespaceRef) ∧
      (∀ d ∈ p.default, d.reference.kind = .typeRef) ∧ ∀ d ∈ p.default, d.name ≠ "::" ++ p.decl.spelling := by
    decide
  intro p hp
  obtain ⟨hkind, hqualifiers, hreference, hother⟩ := hkinds p hp
  exact ⟨hkind, hqualifiers, hreference, hother, hknown p hp, counted p hp⟩

end QualifiedDefaults

open QualifiedDefaults in
theorem defaults_of_both_templates :
    ∃ m ∈ events, ∃ m' ∈ events, m.decl = box ∧ m'.decl = function ∧
      (∃ c, m.after.WalksTo (all.map WrittenParameter.tree) box c ∧ c.db.classParameters? "::Box" =
        some [{ name := "T" }, { name := "U", default := "::N::S" }, { name := "V" }]) ∧
      ∃ c, m'.after.WalksTo (all.map WrittenParameter.tree) function c ∧ c.db.parameters? (.function 0) =
        some [{ name := "T", default := "::N::S" }, { name := "U", default := "::N::S" }, { name := "V" }] := by
  have hm : events.get ⟨2, by decide⟩ ∈ events := List.get_mem ..
  have hm' : events.get ⟨9, by decide⟩ ∈ events := List.get_mem ..
  have registers : (events.get ⟨2, by decide⟩).RegistersTemplate "::Box" := ⟨by decide, by decide, by decide, by decide⟩
  have records : (events.get ⟨9, by decide⟩).RecordsTemplate (.function 0) := ⟨by decide, by decide, by decide⟩
  have unique : (events.get ⟨9, by decide⟩).before.db.UniqueClasses := by
    unfold Database.UniqueClasses
    decide
  obtain ⟨-, -, hclass, hfunction, -⟩ := unqualified_defaults_agree registers records unique
    (stand (by decide) (by decide)) (stand (by decide) (by decide))
  exact ⟨_, hm, _, hm', rfl, rfl, hclass, hfunction⟩

open QualifiedDefaults in
/-- A class template loses the default `N::S` of its parameter; a function template does not. -/
theorem default_lost_behind_namespace :
    state.db.classParameters? "::Box" = some [{ name := "T" }] ∧
      state.db.parameters? (.function 0) = some [{ name := "T", default := some "::N::S" }] := by
  decide

end SymbolIndex
