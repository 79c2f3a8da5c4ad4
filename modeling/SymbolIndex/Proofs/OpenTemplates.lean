import SymbolIndex.Proofs.BrokenTypes
import SymbolIndex.Proofs.Lists
import SymbolIndex.Proofs.SignatureTables

/-!
# Open function templates

A function template is open from its own event on, until a declaration comes that is no part of a type
parameter. While it is open it takes every type parameter; what comes later finds it closed.
-/

namespace SymbolIndex

/-! ## Opening a template -/

theorem templateParams_of_readSignature {decl : Decl} {table : List TypeRef} {scope : List String}
    {signature : Signature} (h : readSignature decl table scope = .ok signature) : signature.templateParams = [] := by
  unfold readSignature at h
  split at h
  · cases h
    rfl
  · obtain ⟨params, -, h⟩ := bind_eq_ok.mp h
    cases h
    rfl

namespace Collector

/-- A new signature, without template parameters so far, is there and open. -/
structure Opens (c c' : Collector) (t : SignatureRef) : Prop where
  slot : ∃ scope, c'.openFunction = some { target := t, scope := scope }
  fresh : t.index = (c.db.parameterLists t.table).length
  lists : ∀ s, c'.db.parameterLists s =
    if s = t.table then c.db.parameterLists s ++ [[]] else c.db.parameterLists s

namespace Opens

variable {c c' : Collector} {t t' : SignatureRef}

theorem unknown (h : c.Opens c' t) : c.db.parameters? t = none :=
  List.getElem?_eq_none (Nat.le_of_eq h.fresh.symm)

theorem added (h : c.Opens c' t) : c'.db.parameters? t = some [] := by
  rw [Database.parameters?, h.lists, if_pos rfl, h.fresh, List.getElem?_concat_length]

theorem eq_of_new (h : c.Opens c' t) (hnone : c.db.parameters? t' = none) (hsome : c'.db.parameters? t' ≠ none) :
    t' = t := by
  rw [Database.parameters?, h.lists] at hsome
  rw [Database.parameters?, List.getElem?_eq_none_iff] at hnone
  by_cases htable : t'.table = t.table
  · rw [if_pos htable, Ne, List.getElem?_eq_none_iff, List.length_append, List.length_singleton] at hsome
    apply SignatureRef.eq_of_table htable
    rw [h.fresh, ← htable]
    omega
  · rw [if_neg htable] at hsome
    exact absurd (List.getElem?_eq_none hnone) hsome

theorem of_signature {entry : ClassEntry} {method : Method} (found : c.db.findClass? entry.fullName = some entry)
    (bare : method.templateParams = []) (owner : t.table.owner? = some entry.fullName)
    (db : c'.db = c.db.updateClass entry.fullName (·.withSignature method t.table))
    (slot : ∃ scope, c'.openFunction = some { target := t, scope := scope })
    (fresh : t.index = (entry.parameterLists t.table).length) : c.Opens c' t where
  slot := slot
  fresh := by simp [fresh, Database.parameterLists, owner, found]
  lists := by
    rw [db]
    refine c.db.parameterLists_updateTable (f := (· ++ [[]])) (·.fullName_withSignature method _) owner
      (by simp [found]) ?_
    intro e s _ hs
    rw [e.parameterLists_withSignature method hs owner, bare]

end Opens

section
variable {c : Collector} {decl : Decl} {parent : Site}

theorem addMethod_opens (decl : Decl) (unique : c.db.UniqueClasses) {entry : ClassEntry}
    (known : entry ∈ c.db.classes) :
    (∃ broken, c.addMethod entry decl = { collector := c, answer := .error broken }) ∨
      (c.addMethod entry decl).answer = .ok .enter ∧ ∃ t, c.Opens (c.addMethod entry decl).collector t := by
  have hfind := unique.findClass? known
  unfold addMethod
  simp only
  split
  · rename_i broken _
    exact Or.inl ⟨broken, rfl⟩
  · rename_i signature hread
    have hparams := templateParams_of_readSignature hread
    right
    split
    · exact ⟨rfl, .constructorOf entry.fullName _,
        .of_signature hfind hparams rfl rfl ⟨_, rfl⟩ (List.length_map ..).symm⟩
    · exact ⟨rfl, .methodOf entry.fullName _, .of_signature hfind hparams rfl rfl ⟨_, rfl⟩ (List.length_map ..).symm⟩

theorem visitFunction_opens (c : Collector) (decl : Decl) (parent : Site) :
    (c.visitFunction decl parent).collector = c ∨
      (decl.kind ≠ .functionTemplate ∧ (c.visitFunction decl parent).collector.openFunction = c.openFunction) ∨
      (c.visitFunction decl parent).answer = .ok .enter ∧ ∃ t, c.Opens (c.visitFunction decl parent).collector t := by
  unfold visitFunction
  simp only
  split
  · exact Or.inl rfl
  · rename_i signature hread
    have hparams := templateParams_of_readSignature hread
    split
    · exact Or.inl rfl
    · rename_i hnew
      split
      · refine Or.inr (Or.inr ⟨rfl, .function c.db.functions.length, ⟨_, rfl⟩, ?_, ?_⟩)
        · simp [Database.parameterLists, SignatureRef.table, SignatureRef.index, SignatureTable.owner?]
        · intro s
          simp only [answer, Database.addFunction, if_neg hnew]
          cases s with
          | functions =>
            simp [Database.parameterLists, SignatureTable.owner?, SignatureRef.table, hparams]
          | _ => rfl
      · rename_i hkind
        exact Or.inr (Or.inl ⟨hkind, rfl⟩)

theorem visitMember_opens (unique : c.db.UniqueClasses) {entry : ClassEntry} (known : entry ∈ c.db.classes) :
    (c.visitMember entry decl).collector.openFunction = c.openFunction ∨
      ∃ t, c.Opens (c.visitMember entry decl).collector t := by
  have hmethod : (c.addMethod entry decl).collector.openFunction = c.openFunction ∨
      ∃ t, c.Opens (c.addMethod entry decl).collector t := by
    rcases addMethod_opens decl unique known with ⟨broken, hbroken⟩ | ⟨-, hopens⟩
    · rw [hbroken]
      exact Or.inl rfl
    · exact Or.inr hopens
  have hfield (isStatic : Bool) : (c.addField entry decl isStatic).collector.openFunction = c.openFunction := by
    unfold addField
    split
    · rfl
    · simp only
      split <;> rfl
  have hbase : (c.addBase entry decl.spelling).collector.openFunction = c.openFunction := by
    unfold addBase
    simp only
    split <;> rfl
  unfold visitMember
  simp only
  split
  · exact Or.inl rfl
  · exact Or.inl hbase
  · exact Or.inl rfl
  · exact hmethod
  · exact hmethod
  · exact hmethod
  · exact Or.inl (hfield false)
  · exact Or.inl (hfield true)
  · exact Or.inl rfl
  · exact Or.inl rfl

/-- A declaration leaves the open template as it is, or opens one of its own. -/
theorem visitDecl_opens (unique : c.db.UniqueClasses) :
    (c.visitDecl decl parent).collector.openFunction = c.openFunction ∨
      ∃ t, c.Opens (c.visitDecl decl parent).collector t := by
  have hclass : (c.visitClass decl parent).collector.openFunction = c.openFunction := by
    unfold visitClass
    simp only
    split
    · rfl
    · split <;> rfl
  by_cases hs : decl.kind.standsAlone = true
  · left
    unfold visitDecl
    split
    · unfold visitNamespace
      simp only
      split <;> rfl
    · unfold visitAlias
      simp only
      split <;> rfl
    · unfold visitAlias
      simp only
      split <;> rfl
    · unfold visitEnum
      simp only
      split <;> rfl
    · rfl
    · exact hclass
    · exact hclass
    · exact hclass
    · rfl
    · -- no kind that stands alone is left
      exfalso
      cases hk : decl.kind <;> simp_all [NodeKind.standsAlone, NodeKind.isClass]
  · have hs : decl.kind.standsAlone = false := by simpa using hs
    rw [c.visitDecl_of_inner hs]
    split
    · rename_i entry known
      exact visitMember_opens unique (List.mem_of_find?_eq_some known)
    · split
      · rcases c.visitFunction_opens decl parent with hsame | ⟨-, hsame⟩ | ⟨-, hopens⟩
        · exact Or.inl (congrArg openFunction hsame)
        · exact Or.inl hsame
        · exact Or.inr hopens
      · exact Or.inl rfl

theorem visitDecl_functionTemplate (unique : c.db.UniqueClasses) (kind : decl.kind = .functionTemplate) :
    (c.visitDecl decl parent).collector = c ∨
      (c.visitDecl decl parent).answer = .ok .enter ∧ ∃ t, c.Opens (c.visitDecl decl parent).collector t := by
  have hs : decl.kind.standsAlone = false := by rw [kind]; rfl
  rw [c.visitDecl_of_inner hs]
  split
  · rename_i entry known
    simp only [visitMember, kind]
    rcases addMethod_opens decl unique (List.mem_of_find?_eq_some known) with ⟨broken, hbroken⟩ | hopens
    · rw [hbroken]
      exact Or.inl rfl
    · exact Or.inr hopens
  · rw [if_pos (Or.inr kind)]
    rcases c.visitFunction_opens decl parent with hsame | ⟨hother, -⟩ | hopens
    · exact Or.inl hsame
    · exact absurd kind hother
    · exact Or.inr hopens

end

end Collector

/-! ## Reading parameters -/

/-- How far the parameters of a function template are read: the names so far and, while the template is open,
the place of the last parameter if there is one. -/
structure Reading where
  names : List String := []
  slot : Option (Option Place) := some none

def Reading.step (r : Reading) (decl : Decl) (parent : Place) : Reading :=
  match r.slot with
  | none => r
  | some last =>
    match decl.kind with
    | .templateTypeParameter => ⟨r.names ++ [decl.spelling], some (some decl.place)⟩
    | .typeRef => if last.any (parent.same ·) then r else { r with slot := none }
    | .namespaceRef => r
    | _ => { r with slot := none }

theorem Reading.step_of_closed {r : Reading} (h : r.slot = none) (decl : Decl) (parent : Place) :
    r.step decl parent = r := by
  unfold step
  rw [h]

namespace Collector

def slotOf (c : Collector) (t : SignatureRef) : Option (Option Place) :=
  c.openFunction.bind fun template => if template.target = t then some template.lastParameter else none

structure Reads (c : Collector) (t : SignatureRef) (r : Reading) : Prop where
  names : (c.db.parameters? t).map (·.map TemplateParameter.name) = some r.names
  slot : c.slotOf t = r.slot
  filled : ∀ place, r.slot = some (some place) → r.names ≠ []

namespace Reads

variable {c : Collector} {t : SignatureRef} {r : Reading}

theorem known (h : c.Reads t r) : ∃ params, c.db.parameters? t = some params ∧ params.map (·.name) = r.names := by
  obtain ⟨params, hparams, hnames⟩ := Option.map_eq_some_iff.mp h.names
  exact ⟨params, hparams, hnames⟩

theorem settled (h : c.Reads t r) (decl : Decl) : (c.settleClass decl).Reads t r := by
  obtain ⟨params, hparams, hnames⟩ := h.known
  have hopen : (c.settleClass decl).openFunction = c.openFunction := by
    unfold settleClass
    split <;> rfl
  refine ⟨?_, ?_, h.filled⟩
  · rw [(c.settleClass_keepsParameters decl).parameters? hparams, Option.map_some, hnames]
  · rw [slotOf, hopen]
    exact h.slot

theorem away (h : c.Reads t r) (hclosed : r.slot = none) {c' : Collector}
    (hparams : c'.db.parameters? t = c.db.parameters? t) (hopen : ∀ template ∈ c'.openFunction, template.target ≠ t) :
    c'.Reads t r where
  names := by rw [hparams, h.names]
  slot := by
    rw [hclosed, slotOf, Option.bind_eq_none_iff]
    intro template htemplate
    exact if_neg (hopen template htemplate)
  filled := h.filled

theorem offered_away (h : c.Reads t r) {template : OpenTemplate} (hopen : c.openFunction = some template)
    (htarget : template.target ≠ t) (decl : Decl) (parent : Site) :
    (c.offerFunction decl parent).1.Reads t (r.step decl parent.place) := by
  have hclosed : r.slot = none := by rw [← h.slot, slotOf, hopen, Option.bind_some, if_neg htarget]
  have hother (change : List TemplateParameter → List TemplateParameter) :
      (c.db.changeTemplateParams change template.target).parameters? t = c.db.parameters? t := by
    rw [Database.parameters?_changeTemplateParams, if_neg (Ne.symm htarget)]
  rw [Reading.step_of_closed hclosed]
  unfold offerFunction
  rw [hopen]
  simp only
  split
  · refine h.away hclosed (hother _) ?_
    rintro template' ⟨⟩
    exact htarget
  · split
    · refine h.away hclosed ?_ ?_
      · simp only
        split
        · exact hother _
        · rfl
      · rintro template' ⟨⟩
        exact htarget
    · exact h.away hclosed rfl (by simp)
  · exact h
  · exact h.away hclosed rfl (by simp)

theorem offered_here (h : c.Reads t r) {template : OpenTemplate} (hopen : c.openFunction = some template)
    (htarget : template.target = t) (decl : Decl) (parent : Site) :
    (c.offerFunction decl parent).1.Reads t (r.step decl parent.place) := by
  subst htarget
  obtain ⟨params, hparams, hnames⟩ := h.known
  have hslot : r.slot = some template.lastParameter := by rw [← h.slot, slotOf, hopen, Option.bind_some, if_pos rfl]
  have hchanged (change : List TemplateParameter → List TemplateParameter) :
      (c.db.changeTemplateParams change template.target).parameters? template.target = some (change params) := by
    rw [Database.parameters?_changeTemplateParams, if_pos rfl, hparams, Option.map_some]
  have hclosed : ({ c with openFunction := none } : Collector).Reads template.target { r with slot := none } :=
    ⟨h.names, rfl, by simp⟩
  unfold offerFunction Reading.step
  rw [hopen, hslot]
  simp only
  cases hk : decl.kind with
  | templateTypeParameter =>
    refine ⟨?_, ?_, by simp⟩
    · simp only
      rw [hchanged, Option.map_some, List.map_append, hnames]
      rfl
    · simp [slotOf]
  | typeRef =>
    have hcond : (!(c.db.templateParams template.target).isEmpty && template.lastParameter.any (parent.place.same ·)) =
        template.lastParameter.any (parent.place.same ·) := by
      cases hlast : template.lastParameter with
      | none => simp
      | some place =>
        have hne : params ≠ [] := by
          intro hnil
          rw [hnil] at hnames
          exact h.filled place (hlast ▸ hslot) hnames.symm
        rw [Database.templateParams_eq, hparams]
        simp [hne]
    simp only [hcond]
    split
    · refine ⟨?_, hslot ▸ by simp [slotOf], h.filled⟩
      simp only
      split
      · rw [hchanged, Option.map_some, map_changeLast TemplateParameter.name _ (fun p => p.withDefault_name _), hnames]
      · exact h.names
    · exact hclosed
  | namespaceRef => exact h
  | _ => exact hclosed

theorem offered (h : c.Reads t r) (decl : Decl) (parent : Site) :
    (c.offerFunction decl parent).1.Reads t (r.step decl parent.place) := by
  cases hopen : c.openFunction with
  | none =>
    have hslot : r.slot = none := by rw [← h.slot, slotOf, hopen, Option.bind_none]
    rw [Reading.step_of_closed hslot]
    unfold offerFunction
    rw [hopen]
    exact h
  | some template =>
    by_cases htarget : template.target = t
    · exact h.offered_here hopen htarget decl parent
    · exact h.offered_away hopen htarget decl parent

theorem visited (h : c.Reads t r) (unique : c.db.UniqueClasses) (decl : Decl) (parent : Site) :
    (c.visit decl parent).collector.Reads t (if c.counts decl then r.step decl parent.place else r) := by
  by_cases hcounted : c.counts decl = true
  · rw [if_pos hcounted]
    have hoffered := (h.settled decl).offered decl parent
    have halike := c.offered_alike decl parent
    unfold Collector.offered at halike
    unfold counts at hcounted
    unfold visit
    rw [if_pos hcounted]
    generalize hresult : (c.settleClass decl).offerFunction decl parent = result at hoffered halike
    obtain ⟨c', answer⟩ := result
    cases answer with
    | some d => exact hoffered
    | none =>
      -- no template is open now, and the declaration opens none but its own
      obtain ⟨hclosed, -⟩ := offerFunction_refused hresult
      have hslot : (r.step decl parent.place).slot = none := by
        rw [← hoffered.slot, slotOf, hclosed, Option.bind_none]
      obtain ⟨params, hparams, -⟩ := hoffered.known
      have hkept := (c'.visitDecl_writes decl parent).keepsParameters.parameters? hparams
      refine hoffered.away hslot (hkept.trans hparams.symm) ?_
      intro template htemplate heq
      rcases visitDecl_opens (unique.of_outline halike.outline) with hsame | ⟨t', hopens⟩
      · rw [hsame, hclosed] at htemplate
        cases htemplate
      · obtain ⟨scope, hslot'⟩ := hopens.slot
        rw [hslot'] at htemplate
        cases htemplate
        have hunknown := hopens.unknown
        rw [show t' = t from heq, hparams] at hunknown
        cases hunknown
  · rw [if_neg hcounted]
    have hpassed : c.visit decl parent = c.answer c.db .pass [] := if_neg hcounted
    rw [hpassed]
    exact h

theorem answer_of_open (h : c.Reads t r) (hopen : r.slot ≠ none) {decl : Decl} (counted : c.counts decl = true)
    {d : Directive} (htakes : takes decl.kind = some d) (parent : Site) : (c.visit decl parent).answer = .ok d := by
  have hsome : (c.settleClass decl).openFunction ≠ none := by
    intro hnone
    exact hopen ((h.settled decl).slot ▸ by rw [slotOf, hnone, Option.bind_none])
  obtain ⟨template, htemplate⟩ := Option.ne_none_iff_exists'.mp hsome
  have htaken : ((c.settleClass decl).offerFunction decl parent).2 = some d := by
    rw [← htakes]
    unfold offerFunction
    rw [htemplate]
    simp only
    cases hk : decl.kind with
    | typeRef =>
      simp only
      split <;> rfl
    | templateTypeParameter | namespaceRef => rfl
    | _ => simp [takes, hk] at htakes
  unfold counts at counted
  unfold visit
  rw [if_pos counted]
  generalize (c.settleClass decl).offerFunction decl parent = result at htaken
  obtain ⟨c', answer⟩ := result
  cases htaken
  rfl

end Reads

end Collector

end SymbolIndex
