import SymbolIndex.Proofs.OpenTemplates
import SymbolIndex.Proofs.Traversal

/-!
# Template parameters of functions

Which of the type parameters below a function template its record gets: those that come before the first
declaration that closes it.
-/

namespace SymbolIndex

/-! ## Reading along a walk -/

/-- What an open template is offered below a place: the declarations that count, in order, and below type
parameters also what stands there. -/
def Forest.offered (counts : Decl → Bool) : Forest → Place → List (Decl × Place)
  | nil, _ => []
  | cons decl children rest, parent =>
    (if counts decl then
      (decl, parent) :: if decl.kind = .templateTypeParameter then children.offered counts decl.place else []
    else []) ++ rest.offered counts parent

theorem Collector.takes_eq_enter {kind : NodeKind} {d : Directive} (h : takes kind = some d) :
    d = .enter ↔ kind = .templateTypeParameter := by
  cases kind <;> simp [takes] at h <;> simp [← h]

namespace Reading

def readAll (r : Reading) (offers : List (Decl × Place)) : Reading :=
  offers.foldl (fun r offer => r.step offer.1 offer.2) r

theorem readAll_append (r : Reading) (offers offers' : List (Decl × Place)) :
    r.readAll (offers ++ offers') = (r.readAll offers).readAll offers' := List.foldl_append

theorem readAll_of_closed {r : Reading} (h : r.slot = none) : ∀ offers : List (Decl × Place), r.readAll offers = r
  | [] => rfl
  | offer :: offers => by
    rw [readAll, List.foldl_cons, step_of_closed h]
    exact readAll_of_closed h offers

theorem step_of_untaken {r : Reading} {decl : Decl} (h : Collector.takes decl.kind = none) (parent : Place) :
    (r.step decl parent).slot = none := by
  unfold step
  split
  · assumption
  · split <;> simp_all [Collector.takes]

end Reading

namespace Moment

variable {m : Moment} {t : SignatureRef} {r : Reading} {counts : Decl → Bool} {children rest : Forest}

def readingAfter (m : Moment) (r : Reading) : Reading :=
  if m.before.counts m.decl then r.step m.decl m.parent.place else r

theorem readAll_of_closed (hcounts : ∀ d, m.before.counts d = counts d) (hclosed : (m.readingAfter r).slot = none) :
    r.readAll ((Forest.cons m.decl children rest).offered counts m.parent.place) = m.readingAfter r := by
  rw [Forest.offered, ← hcounts]
  by_cases hcounted : m.before.counts m.decl
  · rw [readingAfter, if_pos hcounted] at hclosed ⊢
    rw [if_pos hcounted, List.cons_append]
    exact Reading.readAll_of_closed hclosed _
  · have hsame : m.readingAfter r = r := if_neg hcounted
    rw [hsame] at hclosed ⊢
    exact Reading.readAll_of_closed hclosed _

/-- Where an event enters its declaration, an open template is offered what stands below; where it passes, it is
not, and a closed one does not care. -/
theorem readAll_offered (h : m.before.Reads t r) (hcounts : ∀ d, m.before.counts d = counts d) {d : Directive}
    (answer : m.outcome.answer = .ok d) :
    r.readAll ((Forest.cons m.decl children rest).offered counts m.parent.place) =
      (if d = .enter then (m.readingAfter r).readAll (children.offered counts m.decl.place)
        else m.readingAfter r).readAll (rest.offered counts m.parent.place) := by
  rw [Forest.offered, Reading.readAll_append]
  congr 1
  rw [← hcounts, readingAfter]
  by_cases hcounted : m.before.counts m.decl = true
  · rw [if_pos hcounted, if_pos hcounted, Reading.readAll, List.foldl_cons]
    change (r.step m.decl m.parent.place).readAll _ = _
    by_cases hopen : (r.step m.decl m.parent.place).slot = none
    · rw [Reading.readAll_of_closed hopen, Reading.readAll_of_closed hopen, ite_self]
    · have hbefore : r.slot ≠ none := fun hnone => hopen (by rw [Reading.step_of_closed hnone, hnone])
      obtain ⟨d', htakes⟩ := Option.ne_none_iff_exists'.mp fun hnone => hopen (Reading.step_of_untaken hnone _)
      have hd : d' = d := Except.ok.inj ((h.answer_of_open hbefore hcounted htakes m.parent.site).symm.trans answer)
      subst hd
      by_cases hkind : m.decl.kind = .templateTypeParameter
      · rw [if_pos hkind, if_pos ((Collector.takes_eq_enter htakes).mpr hkind)]
      · rw [if_neg hkind, if_neg (mt (Collector.takes_eq_enter htakes).mp hkind)]
        rfl
  · have hpassed : m.outcome = m.before.answer m.before.db .pass [] := if_neg hcounted
    have hd : d = .pass := by
      rw [hpassed] at answer
      exact (Except.ok.inj answer).symm
    rw [if_neg hcounted, if_neg hcounted, hd]
    rfl

end Moment

theorem Collector.Reads.after {m : Moment} {t : SignatureRef} {r : Reading} (h : m.before.Reads t r)
    (unique : m.before.db.UniqueClasses) : m.after.Reads t (m.readingAfter r) :=
  h.visited unique m.decl m.parent.site

structure Collector.Steady (c : Collector) (counts : Decl → Bool) : Prop where
  unique : c.db.UniqueClasses
  counts : ∀ d, c.counts d = counts d

theorem Collector.Steady.visit {c : Collector} {counts : Decl → Bool} (h : c.Steady counts) (decl : Decl)
    (parent : Site) : (c.visit decl parent).collector.Steady counts where
  unique := h.unique.visit c decl parent
  counts := fun d => by
    obtain ⟨hbase, hroots⟩ := c.visit_paths decl parent
    rw [counts_congr hbase hroots]
    exact h.counts d

namespace Traverses

variable {forest : Forest} {parent : Decl} {c c' : Collector} {ms : List Moment} {done : Bool}

theorem closed_of_not_done (h : Traverses forest parent c ms c' done) (hdone : done = false) :
    c'.openFunction = none := by
  induction h with
  | nil => cases hdone
  | fail answer => exact congrArg Collector.openFunction (Collector.visit_of_error answer)
  | pass _ _ ih => exact ih hdone
  | inside _ _ ih => exact ih rfl
  | enter _ _ _ _ ih => exact ih hdone

theorem reads (h : Traverses forest parent c ms c' done) {t : SignatureRef} {counts : Decl → Bool} :
    ∀ {r : Reading}, c.Steady counts → c.Reads t r →
      c'.Reads t (r.readAll (forest.offered counts parent.place)) := by
  induction h with
  | nil => exact fun _ hreads => hreads
  | @fail m children rest e answer =>
    intro r steady hreads
    have hafter := hreads.after steady.unique
    -- what fails has closed the template before
    have hclosed : (m.readingAfter r).slot = none := by
      have hnone : m.after.openFunction = none := congrArg Collector.openFunction (Collector.visit_of_error answer)
      rw [← hafter.slot, Collector.slotOf, hnone, Option.bind_none]
    rw [Moment.readAll_of_closed steady.counts hclosed]
    exact hafter
  | @pass m children rest ms c' done answer further ih =>
    intro r steady hreads
    rw [Moment.readAll_offered hreads steady.counts answer]
    exact ih (steady.visit _ _) (hreads.after steady.unique)
  | @inside m children rest ms c' answer inner ih =>
    intro r steady hreads
    have hinner := ih (steady.visit _ _) (hreads.after steady.unique)
    have hclosed := hinner.slot
    rw [Collector.slotOf, inner.closed_of_not_done rfl, Option.bind_none] at hclosed
    rw [Moment.readAll_offered hreads steady.counts answer, if_pos rfl, Reading.readAll_of_closed hclosed.symm]
    exact hinner
  | @enter m children rest ms ms' c₁ c' done answer inner further ihinner ihfurther =>
    intro r steady hreads
    have hsteady := steady.visit m.decl m.parent.site
    rw [Moment.readAll_offered hreads steady.counts answer, if_pos rfl]
    exact ihfurther (inner.invariant (P := fun c => c.Steady counts) (fun _ _ _ h => h.visit _ _) hsteady)
      (ihinner hsteady (hreads.after steady.unique))

end Traverses

/-! ## The type parameters that are read -/

/-- The type parameters among the declarations offered, up to the first declaration that closes the template. -/
def leadingParameters (last : Option Place) : List (Decl × Place) → List String
  | [] => []
  | (decl, parent) :: offers =>
    match decl.kind with
    | .templateTypeParameter => decl.spelling :: leadingParameters (some decl.place) offers
    | .typeRef => if last.any (parent.same ·) then leadingParameters last offers else []
    | .namespaceRef => leadingParameters last offers
    | _ => []

theorem Reading.names_readAll : ∀ (offers : List (Decl × Place)) (r : Reading),
    (r.readAll offers).names = r.names ++ r.slot.elim [] (leadingParameters · offers)
  | [], r => by cases r.slot <;> simp [readAll, leadingParameters]
  | (decl, parent) :: offers, r => by
    have hcons : r.readAll ((decl, parent) :: offers) = (r.step decl parent).readAll offers := rfl
    rw [hcons, names_readAll offers]
    unfold step
    cases hslot : r.slot with
    | none => simp [hslot]
    | some last =>
      simp only [Option.elim_some, leadingParameters]
      cases decl.kind with
      | templateTypeParameter => simp
      | typeRef =>
        simp only
        split <;> simp [hslot]
      | namespaceRef => simp [hslot]
      | _ => simp

namespace Forest

def counted (counts : Decl → Bool) (forest : Forest) : List (Decl × Forest) := forest.toList.filter (counts ·.1)

def typeParameters (counts : Decl → Bool) (forest : Forest) : List String :=
  ((forest.counted counts).filter (·.1.kind == .templateTypeParameter)).map (·.1.spelling)

def FlatParameters (counts : Decl → Bool) (forest : Forest) : Prop :=
  ∀ node ∈ forest.counted counts, node.1.kind = .templateTypeParameter → node.2.typeParameters counts = []

/-- A reference to a namespace, or a type parameter with nothing but references to types and namespaces below. -/
def KeepsOpen (counts : Decl → Bool) (node : Decl × Forest) : Prop :=
  node.1.kind = .namespaceRef ∨
    node.1.kind = .templateTypeParameter ∧
      ∀ below ∈ node.2.counted counts, below.1.kind = .typeRef ∨ below.1.kind = .namespaceRef

def ParametersLead (counts : Decl → Bool) (forest : Forest) : Prop :=
  (forest.counted counts).Pairwise fun earlier later =>
    later.1.kind = .templateTypeParameter → KeepsOpen counts earlier

instance (counts : Decl → Bool) (forest : Forest) : Decidable (forest.FlatParameters counts) :=
  inferInstanceAs (Decidable (∀ node ∈ forest.counted counts, _ → _))

instance (counts : Decl → Bool) (node : Decl × Forest) : Decidable (KeepsOpen counts node) :=
  inferInstanceAs (Decidable (_ ∨ _ ∧ ∀ below ∈ node.2.counted counts, _))

instance (counts : Decl → Bool) (forest : Forest) : Decidable (forest.ParametersLead counts) :=
  inferInstanceAs (Decidable ((forest.counted counts).Pairwise _))

end Forest

def offeredParameters (offers : List (Decl × Place)) : List String :=
  (offers.filter (·.1.kind == .templateTypeParameter)).map (·.1.spelling)

theorem offeredParameters_append (offers offers' : List (Decl × Place)) :
    offeredParameters (offers ++ offers') = offeredParameters offers ++ offeredParameters offers' := by
  rw [offeredParameters, List.filter_append, List.map_append]
  rfl

theorem offeredParameters_cons (decl : Decl) (parent : Place) (offers : List (Decl × Place)) :
    offeredParameters ((decl, parent) :: offers) =
      if decl.kind = .templateTypeParameter then decl.spelling :: offeredParameters offers
      else offeredParameters offers := by
  by_cases h : decl.kind = .templateTypeParameter <;> simp [offeredParameters, h]

theorem leadingParameters_isPrefix : ∀ (offers : List (Decl × Place)) (last : Option Place),
    leadingParameters last offers <+: offeredParameters offers
  | [], _ => List.nil_prefix
  | (decl, parent) :: offers, last => by
    rw [offeredParameters_cons, leadingParameters]
    cases decl.kind with
    | templateTypeParameter =>
      rw [if_pos rfl]
      exact (List.prefix_cons_inj _).mpr (leadingParameters_isPrefix offers _)
    | typeRef =>
      have hother : NodeKind.typeRef ≠ .templateTypeParameter := by decide
      rw [if_neg hother]
      simp only
      split
      · exact leadingParameters_isPrefix offers last
      · exact List.nil_prefix
    | namespaceRef => exact leadingParameters_isPrefix offers last
    | _ => exact List.nil_prefix

theorem leadingParameters_eq_nil {offers : List (Decl × Place)} (h : offeredParameters offers = [])
    (last : Option Place) : leadingParameters last offers = [] :=
  List.prefix_nil.mp (h ▸ leadingParameters_isPrefix offers last)

namespace Forest

variable {counts : Decl → Bool} {decl : Decl} {children rest : Forest}

theorem counted_cons : (cons decl children rest).counted counts =
    if counts decl then (decl, children) :: rest.counted counts else rest.counted counts := List.filter_cons

theorem typeParameters_cons : (cons decl children rest).typeParameters counts =
    if counts decl ∧ decl.kind = .templateTypeParameter then decl.spelling :: rest.typeParameters counts
    else rest.typeParameters counts := by
  rw [typeParameters, counted_cons]
  by_cases hcounted : counts decl <;> by_cases hkind : decl.kind = .templateTypeParameter <;>
    simp [typeParameters, hcounted, hkind]

theorem subset_counted_cons : rest.counted counts ⊆ (cons decl children rest).counted counts := by
  rw [counted_cons]
  split
  · exact List.subset_cons_self ..
  · exact List.Subset.refl _

theorem mem_counted_cons (h : counts decl = true) : (decl, children) ∈ (cons decl children rest).counted counts := by
  rw [counted_cons, if_pos h]
  exact List.mem_cons_self

theorem typeParameters_eq_nil_iff {forest : Forest} : forest.typeParameters counts = [] ↔
    ∀ node ∈ forest.counted counts, node.1.kind ≠ .templateTypeParameter := by
  simp [typeParameters, List.filter_eq_nil_iff]

theorem flatParameters_of_none {forest : Forest} (h : forest.typeParameters counts = []) :
    forest.FlatParameters counts := fun node hnode hkind => absurd hkind (typeParameters_eq_nil_iff.mp h node hnode)

theorem FlatParameters.tail (h : (cons decl children rest).FlatParameters counts) : rest.FlatParameters counts :=
  fun node hnode => h node (subset_counted_cons hnode)

theorem FlatParameters.below (h : (cons decl children rest).FlatParameters counts) (counted : counts decl = true)
    (kind : decl.kind = .templateTypeParameter) : children.typeParameters counts = [] :=
  h (decl, children) (mem_counted_cons counted) kind

theorem offeredParameters_offered : ∀ {forest : Forest} (parent : Place), forest.FlatParameters counts →
    offeredParameters (forest.offered counts parent) = forest.typeParameters counts
  | nil, _, _ => rfl
  | cons decl children rest, parent, flat => by
    rw [offered, offeredParameters_append, offeredParameters_offered parent flat.tail, typeParameters_cons]
    by_cases hcounted : counts decl = true
    · rw [if_pos hcounted, offeredParameters_cons]
      by_cases hkind : decl.kind = .templateTypeParameter
      · have hnone := flat.below hcounted hkind
        rw [if_pos hkind, if_pos hkind, if_pos ⟨hcounted, hkind⟩,
          offeredParameters_offered decl.place (flatParameters_of_none hnone), hnone]
        rfl
      · rw [if_neg hkind, if_neg hkind, if_neg fun h => hkind h.2]
        rfl
    · rw [if_neg hcounted, if_neg fun h => hcounted h.1]
      rfl

theorem leadingParameters_below (place : Place) (offers : List (Decl × Place)) : ∀ {forest : Forest},
    (∀ node ∈ forest.counted counts, node.1.kind = .typeRef ∨ node.1.kind = .namespaceRef) →
      leadingParameters (some place) (forest.offered counts place ++ offers) = leadingParameters (some place) offers
  | nil, _ => rfl
  | cons decl children rest, h => by
    have hrest := leadingParameters_below place offers fun node hnode => h node (subset_counted_cons hnode)
    rw [offered, List.append_assoc]
    by_cases hcounted : counts decl = true
    · rw [if_pos hcounted]
      rcases h (decl, children) (mem_counted_cons hcounted) with hkind | hkind
      · have hkind : decl.kind = .typeRef := hkind
        simp [leadingParameters, hkind, Place.same_refl, hrest]
      · have hkind : decl.kind = .namespaceRef := hkind
        simp [leadingParameters, hkind, hrest]
    · rw [if_neg hcounted]
      exact hrest

theorem leadingParameters_offered (parent : Place) : ∀ {forest : Forest} (last : Option Place),
    forest.FlatParameters counts → forest.ParametersLead counts →
      leadingParameters last (forest.offered counts parent) = forest.typeParameters counts
  | nil, _, _, _ => rfl
  | cons decl children rest, last, flat, lead => by
    rw [ParametersLead, counted_cons] at lead
    by_cases hcounted : counts decl = true
    · rw [if_pos hcounted, List.pairwise_cons] at lead
      have hrest (last : Option Place) := leadingParameters_offered parent last flat.tail lead.2
      by_cases hnone : rest.typeParameters counts = []
      · -- no parameter comes later, so it does not matter what closes the template here
        by_cases hkind : decl.kind = .templateTypeParameter
        · have hbelow := flat.below hcounted hkind
          have hlater : offeredParameters (children.offered counts decl.place ++ rest.offered counts parent) = [] := by
            rw [offeredParameters_append, offeredParameters_offered parent flat.tail, hnone,
              offeredParameters_offered decl.place (flatParameters_of_none hbelow), hbelow]
            rfl
          rw [typeParameters_cons, if_pos ⟨hcounted, hkind⟩, hnone, offered, if_pos hcounted, if_pos hkind,
            List.cons_append, leadingParameters, hkind]
          simp only
          rw [leadingParameters_eq_nil hlater]
        · have hall : (cons decl children rest).typeParameters counts = [] := by
            rw [typeParameters_cons, if_neg fun h => hkind h.2, hnone]
          rw [hall]
          exact leadingParameters_eq_nil (by rw [offeredParameters_offered parent flat, hall]) last
      · obtain ⟨later, hlater, hparameter⟩ : ∃ later ∈ rest.counted counts, later.1.kind = .templateTypeParameter := by
          simpa [typeParameters_eq_nil_iff] using hnone
        rw [typeParameters_cons, offered, if_pos hcounted]
        rcases lead.1 later hlater hparameter with hkind | ⟨hkind, hrefs⟩
        · have hkind : decl.kind = .namespaceRef := hkind
          rw [← hrest last]
          simp [leadingParameters, hkind]
        · have hkind : decl.kind = .templateTypeParameter := hkind
          rw [if_pos hkind, if_pos ⟨hcounted, hkind⟩, List.cons_append, leadingParameters, hkind]
          simp only
          rw [leadingParameters_below decl.place _ hrefs, hrest]
    · rw [if_neg hcounted] at lead
      rw [offered, if_neg hcounted, typeParameters_cons, if_neg fun h => hcounted h.1]
      exact leadingParameters_offered parent last flat.tail lead

end Forest

theorem Moment.counted_of_changed {m : Moment} (h : m.after.db ≠ m.before.db) : m.before.counts m.decl = true := by
  by_contra hcounted
  have hpassed : m.outcome = m.before.answer m.before.db .pass [] := if_neg hcounted
  apply h
  rw [after, hpassed]
  rfl

structure Moment.RecordsTemplate (m : Moment) (t : SignatureRef) : Prop where
  kind : m.decl.kind = .functionTemplate
  unknown : m.before.db.parameters? t = none
  known : m.after.db.parameters? t ≠ none

theorem Moment.RecordsTemplate.opens {m : Moment} {t : SignatureRef} (h : m.RecordsTemplate t)
    (unique : m.before.db.UniqueClasses) : m.outcome.answer = .ok .enter ∧ m.after.Reads t {} := by
  have hcounted : m.before.counts m.decl = true := by
    apply counted_of_changed
    intro hsame
    exact h.known (hsame ▸ h.unknown)
  have hvisit : m.outcome = m.before.closeTemplates.visitDecl m.decl m.parent.site :=
    Collector.visit_of_untaken hcounted (by rw [h.kind]; rfl)
  have hknown := h.known
  rw [after, hvisit] at hknown ⊢
  rcases Collector.visitDecl_functionTemplate (c := m.before.closeTemplates) unique h.kind
    with hsame | ⟨henter, t', hopens⟩
  · rw [hsame] at hknown
    exact absurd h.unknown hknown
  · obtain rfl := hopens.eq_of_new h.unknown hknown
    obtain ⟨scope, hslot⟩ := hopens.slot
    refine ⟨henter, ?_, ?_, by simp⟩
    · rw [hopens.added]
      rfl
    · rw [Collector.slotOf, hslot, Option.bind_some, if_pos rfl]

/-- Once what stands below a function template has been walked, its record has the type parameters among that, up to
the first declaration that is no part of one. They are the first type parameters right below it, and all of them
if only parameters and references to namespaces stand before the last. -/
theorem leading_type_parameters_are_recorded {base : String} {roots : List String} {units : List SourceUnit}
    {older later : List Moment} {m : Moment} {t : SignatureRef}
    (happens : (Collector.start base roots {}).history units = older ++ m :: later) (records : m.RecordsTemplate t) :
    ∃ u ∈ units, ∃ children inner newer c done,
      (m.decl, children) ∈ u.forest.nodes ∧ later = inner ++ newer ∧
      Traverses children m.decl m.after inner c done ∧
      (c.db.templateParams t).map TemplateParameter.name =
        leadingParameters none (children.offered (Collector.start base roots {}).counts m.decl.place) ∧
      (children.FlatParameters (Collector.start base roots {}).counts →
        (c.db.templateParams t).map TemplateParameter.name <+:
            children.typeParameters (Collector.start base roots {}).counts ∧
        (children.ParametersLead (Collector.start base roots {}).counts →
          (c.db.templateParams t).map TemplateParameter.name =
            children.typeParameters (Collector.start base roots {}).counts)) := by
  generalize hc : Collector.start base roots {} = c at happens ⊢
  have hstart : c.Steady c.counts := ⟨by rw [← hc]; exact List.nodup_nil, fun _ => rfl⟩
  have hall : ∀ u ∈ units, u ∈ units := fun _ hu => hu
  have hsteady : m.before.Steady c.counts :=
    (Collector.history_invariant (P := fun c' => c'.Steady c.counts) (fun _ h => ⟨h.unique, h.counts⟩)
      (fun _ _ _ _ h => h.visit _ _) hall hstart).2 m (by rw [happens]; simp)
  obtain ⟨henter, hreads⟩ := records.opens hsteady.unique
  obtain ⟨before, u, after, older', later', rfl, hmoments, rfl⟩ := Collector.history_split happens
  obtain ⟨_, hwalk⟩ := (c.collectAll before).traverses u
  obtain ⟨children, inner, newer, c₁, through, rfl, hnode, hinner, -⟩ := hwalk.walk_below henter hmoments
  obtain ⟨params, hparams, hnames⟩ := (hinner.reads (hsteady.visit _ _) hreads).known
  have hrecorded : (c₁.db.templateParams t).map TemplateParameter.name =
      leadingParameters none (children.offered c.counts m.decl.place) := by
    rw [Database.templateParams_eq, hparams, Option.getD_some, hnames, Reading.names_readAll]
    rfl
  refine ⟨u, by simp, children, inner, _, c₁, through, hnode, List.append_assoc .., hinner, hrecorded, ?_⟩
  intro flat
  rw [hrecorded, ← Forest.offeredParameters_offered m.decl.place flat]
  refine ⟨leadingParameters_isPrefix _ _, fun lead => ?_⟩
  rw [Forest.offeredParameters_offered m.decl.place flat]
  exact Forest.leadingParameters_offered m.decl.place none flat lead

namespace DefaultArguments

def template : Decl := (Decl.wholeFile 0).within 1 .functionTemplate "f"
def first : Decl := template.within 2 .templateTypeParameter "T"
def second : Decl := template.within 3 .templateTypeParameter "U"
def parameters : Forest := .ofList [
  (first, .ofList [(first.within 4 .namespaceRef "std", .nil), (first.within 5 .typeRef "string", .nil)]),
  (template.within 6 .namespaceRef "std", .nil),
  (second, .ofList [(second.within 7 (.other "TEMPLATE_REF") "vector", .nil)]),
  (template.within 8 (.other "PARM_DECL") "t", .nil)]

-- `template <class T = std::string, class U = vector<int>> void f(T t);`
def unit : SourceUnit := ⟨.wholeFile 0, .ofList [(template, parameters)]⟩

def event : Moment := ⟨(Collector.start "/" [] {}).closeTemplates, template, .wholeFile 0⟩

end DefaultArguments

open DefaultArguments in
theorem parameters_with_default_arguments :
    ∃ inner c done, Traverses parameters template event.after inner c done ∧
      (c.db.templateParams (.function 0)).map TemplateParameter.name = ["T", "U"] := by
  have distinct : DistinctPlaces [unit] := by decide
  have records : event.RecordsTemplate (.function 0) := ⟨rfl, rfl, by decide⟩
  obtain ⟨later, happens⟩ : ∃ later, (Collector.start "/" [] {}).history [unit] = [] ++ event :: later := ⟨_, rfl⟩
  obtain ⟨u, hu, children, inner, newer, c, done, hnode, -, hwalk, -, hall⟩ :=
    leading_type_parameters_are_recorded happens records
  obtain rfl : children = parameters :=
    distinct.children_eq hu (List.mem_cons_self ..) hnode (List.mem_cons_self ..)
  have flat : parameters.FlatParameters (Collector.start "/" [] {}).counts := by decide
  have lead : parameters.ParametersLead (Collector.start "/" [] {}).counts := by decide
  exact ⟨inner, c, done, hwalk, (hall flat).2 lead⟩

namespace LostParameters

def free : Decl := (Decl.wholeFile 0).within 1 .functionTemplate "f"
def afterValue : Forest := .ofList [
  (free.within 2 (.other "TEMPLATE_NON_TYPE_PARAMETER") "N", .nil),
  (free.within 3 .templateTypeParameter "T", .nil)]

def around : Decl := (Decl.wholeFile 0).within 4 .structDecl "A"
def member : Decl := around.within 5 .functionTemplate "g"
def afterTemplate : Forest := .ofList [
  (member.within 6 .templateTypeParameter "T", .nil),
  (member.within 7 (.other "TEMPLATE_TEMPLATE_PARAMETER") "C", .nil),
  (member.within 8 .templateTypeParameter "U", .nil)]

def other : Decl := (Decl.wholeFile 0).within 9 .functionTemplate "h"
def first : Decl := other.within 10 .templateTypeParameter "T"
def afterDefault : Forest := .ofList [
  (first, .ofList [(first.within 11 (.other "TEMPLATE_REF") "vector", .nil)]),
  (other.within 12 .templateTypeParameter "U", .nil)]

def whole : Decl := (Decl.wholeFile 0).within 13 .classTemplate "S"
def ofClass : Forest := .ofList [
  (whole.within 14 (.other "TEMPLATE_NON_TYPE_PARAMETER") "N", .nil),
  (whole.within 15 .templateTypeParameter "T", .nil)]

-- `template <int N, class T> void f();`
-- `struct A { template <class T, template <class> class C, class U> void g(); };`
-- `template <class T = vector<int>, class U> void h();`
-- `template <int N, class T> struct S;`
def unit : SourceUnit :=
  ⟨.wholeFile 0, .ofList [
    (free, afterValue), (around, .ofList [(member, afterTemplate)]), (other, afterDefault), (whole, ofClass)]⟩

def state : Collector := (Collector.start "/" [] {}).collectAll [unit]

def recorded (t : SignatureRef) : List String := (state.db.templateParams t).map TemplateParameter.name

end LostParameters

open LostParameters in
/-- A parameter that is no type, or a default argument that is no plain type, costs a function template the type
parameters behind it. A class template keeps them. -/
theorem parameters_lost_behind_others :
    (recorded (.function 0) = [] ∧ afterValue.typeParameters state.counts = ["T"]) ∧
    (recorded (.methodOf "::A" 0) = ["T"] ∧ afterTemplate.typeParameters state.counts = ["T", "U"]) ∧
    (recorded (.function 1) = ["T"] ∧ afterDefault.typeParameters state.counts = ["T", "U"]) ∧
    (state.db.findClass? "::S").map (fun e => e.record.templateParams.map TemplateParameter.name) =
      some (ofClass.typeParameters state.counts) :=
  ⟨⟨rfl, rfl⟩, ⟨rfl, rfl⟩, ⟨rfl, rfl⟩, rfl⟩

end SymbolIndex
