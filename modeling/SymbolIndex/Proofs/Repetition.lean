import SymbolIndex.Proofs.Resting

/-!
# Repeated declarations

What each sort of declaration does when a second walk meets it after a first one: its own test for
repetition holds, so the database rests. Only the answer may differ, where the walk does not go below
a declaration again that it went below before.
-/

namespace SymbolIndex

def Outcome.RestsAt (o : Outcome) (b : Database) (s : Collector) (d : Directive) : Prop :=
  ∃ db notes, o = s.answer db d notes ∧ b.Rests db

/-- A walk does not go below a template's parameter again, a function template, or a class that has
members. -/
def Database.shutsAt (b : Database) (kind : NodeKind) (chain : List Place) : Bool :=
  kind == .functionTemplate || kind == .templateTypeParameter || (kind.isClass && (writtenScope chain).any b.isFull)

def Database.shuts (b : Database) (decl : Decl) : Bool := b.shutsAt decl.kind decl.site.chain

theorem Database.shuts_of_declares (b : Database) {decl : Decl} {fullName : String} (h : decl.site.Declares fullName) :
    b.shuts decl = b.isFull fullName := by
  have hk : decl.kind.isClass = true := h.1
  rw [shuts, shutsAt, h.2, Option.any_some, hk, Bool.true_and]
  cases hkind : decl.kind <;> simp_all [NodeKind.isClass]

def NodeKind.isReference : NodeKind → Bool
  | typeRef | namespaceRef => true
  | _ => false

/-- The types whose entries decide what an alias or a free function is registered as. -/
def Collector.decisiveTypes (c : Collector) (decl : Decl) (parent : Site) : List TypeTree :=
  match decl.kind with
  | .typedefDecl | .typeAliasDecl => [decl.underlying]
  | .functionDecl | .functionTemplate => if (c.db.classAt? parent.place).isSome then [] else decl.parameterTypes
  | _ => []

def Collector.scopeOf (c : Collector) (parent : Site) : List String :=
  Scope.split ((c.db.scopeName? parent.chain).getD "")

theorem Collector.visit_of_closed (c : Collector) (hc : c.openClass = none) (hf : c.openFunction = none) (decl : Decl)
    (parent : Site) :
    c.visit decl parent = if c.counts decl then c.visitDecl decl parent else c.answer c.db .pass [] := by
  have hsettle : c.settleClass decl = c := by
    unfold settleClass
    rw [hc]
  have hoffer : c.offerFunction decl parent = (c, none) := by
    unfold offerFunction
    rw [hf]
  unfold visit
  rw [hsettle, hoffer]
  rfl

theorem Collector.visitDecl_of_inner (c : Collector) {decl : Decl} {parent : Site} (h : decl.kind.standsAlone = false) :
    c.visitDecl decl parent =
      match c.db.classAt? parent.place with
      | some entry => c.visitMember entry decl
      | none =>
        if decl.kind = .functionDecl ∨ decl.kind = .functionTemplate then c.visitFunction decl parent
        else c.answer c.db .pass [.unhandledDecl decl.kind decl.spelling] := by
  unfold visitDecl
  cases hat : c.db.classAt? parent.place with
  | some entry => cases hk : decl.kind <;> simp_all [NodeKind.standsAlone, NodeKind.isClass]
  | none => cases hk : decl.kind <;> simp_all [NodeKind.standsAlone, NodeKind.isClass]

/-! ## Settled events -/

structure Settled (b : Database) (a : Collector) (decl : Decl) (parent : Site) : Prop where
  types : ∀ type ∈ a.decisiveTypes decl parent, FindSame a.db.types b.types (a.scopeOf parent) type
  plain : decl.kind = .templateTypeParameter → a.counts decl = true → parent.kind.isClass = true →
    (writtenScope parent.chain).all b.isFull = true

instance (b : Database) (a : Collector) (decl : Decl) (parent : Site) : Decidable (Settled b a decl parent) :=
  decidable_of_iff ((∀ type ∈ a.decisiveTypes decl parent, FindSame a.db.types b.types (a.scopeOf parent) type) ∧
    (decl.kind = .templateTypeParameter → a.counts decl = true → parent.kind.isClass = true →
      (writtenScope parent.chain).all b.isFull = true)) ⟨fun h => ⟨h.1, h.2⟩, fun h => ⟨h.types, h.plain⟩⟩

section
variable {b : Database} {a : Collector} {decl : Decl} {parent : Site}

theorem Settled.isFull (h : Settled b a decl parent) (hk : decl.kind = .templateTypeParameter)
    (hi : a.counts decl = true) {name : String} (hp : parent.Declares name) : b.isFull name = true := by
  have hall := h.plain hk hi hp.1
  rw [hp.2, Option.all_some] at hall
  exact hall
theorem Settled.alike {a' : Collector} (h : Settled b a decl parent) (ha : a.Alike a') : Settled b a' decl parent := by
  have hscope : a'.scopeOf parent = a.scopeOf parent := by
    rw [Collector.scopeOf, Collector.scopeOf, Database.scopeName?_of_outline ha.outline]
  have hat : (a'.db.classAt? parent.place).isSome = (a.db.classAt? parent.place).isSome := by
    have := congrArg (fun db => (Database.classAt? db parent.place).isSome) ha.outline
    simp only [Database.outline_classAt?, Option.isSome_map] at this
    exact this
  refine ⟨?_, ?_⟩
  · rw [Database.types_of_outline ha.outline, hscope]
    unfold Collector.decisiveTypes
    rw [hat]
    exact h.types
  · rw [Collector.counts_congr ha.base ha.roots]
    exact h.plain

end

/-! ## Functions -/

theorem pairwiseSame_refl {α : Type} {same : α → α → Bool} (h : ∀ x, same x x = true) :
    ∀ l : List α, pairwiseSame same l l = true
  | [] => rfl
  | x :: l => by rw [pairwiseSame, h, pairwiseSame_refl h l, Bool.and_self]

theorem Database.knowsFunction_congr (db : Database) {f g : FreeFunction} (hn : f.fullName = g.fullName)
    (hp : f.params = g.params) : db.knowsFunction f = db.knowsFunction g := by
  unfold Database.knowsFunction Signature.sameParams
  rw [hn, hp]

theorem Database.knowsFunction_addFunction (db : Database) (f : FreeFunction) :
    (db.addFunction f).knowsFunction f = true := by
  unfold Database.addFunction
  split
  · rename_i hold
    exact hold
  · have hsame : f.sameParams f.toSignature = true := pairwiseSame_refl (fun p => by simp [Parameter.same]) f.params
    unfold Database.knowsFunction
    rw [List.any_append]
    simp [hsame]

namespace Collector

def functionRecord (c : Collector) (decl : Decl) (parent : Site) (signature : Signature) : FreeFunction :=
  { signature with
    name := decl.spelling
    fullName := (c.db.scopeName? parent.chain).getD "" ++ "::" ++ decl.spelling
    fromFile := c.fileOf decl
    includePath := c.includePath (c.fileOf decl) }

theorem visitFunction_knows (c : Collector) {decl : Decl} {parent : Site} {d : Directive}
    (hok : (c.visitFunction decl parent).answer = .ok d) :
    ∃ signature, readSignature decl c.db.types (c.scopeOf parent) = .ok signature ∧
      (c.visitFunction decl parent).collector.db.knowsFunction (c.functionRecord decl parent signature) = true ∧
      (decl.kind ≠ .functionTemplate → d = .pass) := by
  unfold visitFunction at hok ⊢
  unfold scopeOf
  simp only at hok ⊢
  cases hsig : readSignature decl c.db.types (Scope.split ((c.db.scopeName? parent.chain).getD "")) with
  | error e =>
    rw [hsig] at hok
    cases hok
  | ok signature =>
    rw [hsig] at hok
    refine ⟨signature, rfl, ?_⟩
    simp only at hok ⊢
    split at hok
    · rename_i hold
      cases hok
      rw [if_pos hold]
      exact ⟨hold, fun _ => rfl⟩
    · rename_i hnew
      rw [if_neg hnew]
      split at hok
      · rename_i hk
        rw [if_pos hk]
        exact ⟨Database.knowsFunction_addFunction .., fun hn => absurd hk hn⟩
      · rename_i hk
        cases hok
        rw [if_neg hk]
        exact ⟨Database.knowsFunction_addFunction .., fun _ => rfl⟩

theorem visitFunction_of_known (c : Collector) {decl : Decl} {parent : Site} {signature : Signature}
    (hsig : readSignature decl c.db.types (c.scopeOf parent) = .ok signature)
    (hknown : c.db.knowsFunction (c.functionRecord decl parent signature) = true) :
    c.visitFunction decl parent = c.answer c.db .pass [] := by
  unfold scopeOf at hsig
  unfold functionRecord at hknown
  unfold visitFunction
  simp only [hsig]
  rw [if_pos hknown]

/-! ## Fields -/

theorem addField_knows (c : Collector) {entry : ClassEntry} (hf : c.db.findClass? entry.fullName = some entry)
    {decl : Decl} {isStatic : Bool} {d : Directive} (hok : (c.addField entry decl isStatic).answer = .ok d) :
    d = .pass ∧ decl.type.isInvalid = false ∧
      (c.addField entry decl isStatic).collector.db.knowsField entry.fullName decl.spelling = true := by
  unfold addField resolveParameter at hok ⊢
  by_cases hv : decl.type.isInvalid = true
  · rw [if_pos hv] at hok
    cases hok
  · rw [if_neg hv] at hok ⊢
    simp only at hok ⊢
    split
    · rename_i hold
      rw [if_pos hold] at hok
      cases hok
      refine ⟨rfl, by simpa using hv, ?_⟩
      simp only [answer, Database.knowsField]
      rw [hf, Option.any_some, ← hold]
      simp only [Field.same, Parameter.ofType, Bool.beq_comm]
    · rename_i hnew
      rw [if_neg hnew] at hok
      cases hok
      refine ⟨rfl, by simpa using hv, ?_⟩
      simp only [answer, Database.knowsField]
      rw [Database.findClass?_updateClass, if_pos rfl, hf, Option.map_some, Option.any_some, List.any_append]
      · simp [Parameter.ofType]
      · exact fun _ => rfl

theorem addField_of_known (c : Collector) {entry : ClassEntry} (hf : c.db.findClass? entry.fullName = some entry)
    {decl : Decl} (hv : decl.type.isInvalid = false) (isStatic : Bool)
    (hknown : c.db.knowsField entry.fullName decl.spelling = true) :
    c.addField entry decl isStatic = c.answer c.db .pass [] := by
  unfold addField resolveParameter
  rw [hv]
  simp only [Bool.false_eq_true, if_false]
  apply if_pos
  rw [Database.knowsField, hf, Option.any_some] at hknown
  rw [← hknown]
  simp only [Field.same, Parameter.ofType, Bool.beq_comm]

end Collector

/-! ## Declarations outside classes -/

namespace Abreast

variable {U : Site → Prop} {a s : Collector} {decl decl' : Decl} {parent parent' : Site} {b : Database}
  {d : Directive}

theorem namespace_rests (h : Abreast U a s decl decl' parent parent') (hr : b.Rests s.db)
    (hok : (a.visitNamespace decl parent).answer = .ok d)
    (hg : (a.visitNamespace decl parent).collector.db.Grows b) :
    (s.visitNamespace decl' parent').RestsAt b s d := by
  unfold Collector.visitNamespace at hok hg ⊢
  simp only [h.spelling, h.scopeName?] at hok hg ⊢
  split at hok
  · rename_i hn
    rw [if_pos hn]
    cases hok
    exact ⟨_, _, rfl, hr⟩
  · rename_i hn
    rw [if_neg hn] at hg ⊢
    cases hok
    refine ⟨_, _, rfl, hr.addNamespace _ _ (hg.namespaces _ ?_)⟩
    -- the first event has registered the name
    obtain ⟨mark, hm, hname, -⟩ := addMark_marks ((a.db.scopeName? parent.chain).getD "" ++ "::" ++ decl.spelling)
      decl.place a.db.namespaceMarks
    rw [← Database.namespaceMarks_addNamespace a.db decl.spelling] at hm
    obtain ⟨entry, hentry, rfl⟩ := List.mem_map.mp hm
    exact List.any_eq_true.mpr ⟨entry, hentry, by simpa using hname⟩

theorem enum_rests (h : Abreast U a s decl decl' parent parent') (hr : b.Rests s.db)
    (hok : (a.visitEnum decl parent).answer = .ok d) (hg : (a.visitEnum decl parent).collector.db.Grows b) :
    (s.visitEnum decl' parent').RestsAt b s d := by
  unfold Collector.visitEnum at hok hg ⊢
  simp only [h.spelling, h.scopeName?] at hok hg ⊢
  split at hok
  · rename_i hn
    rw [if_pos hn]
    cases hok
    exact ⟨_, _, rfl, hr⟩
  · rename_i hn
    rw [if_neg hn] at hg ⊢
    cases hok
    refine ⟨_, _, rfl, ?_⟩
    have hknown : s.db.enums.any (·.fullName == (a.db.scopeName? parent.chain).getD "" ++ "::" ++ decl.spelling) = true := by
      rw [hr.enums]
      apply hg.enums
      simp only [Collector.answer, Database.addEnum]
      split
      · rename_i hold
        exact hold
      · rw [List.any_append]
        simp [EnumEntry.fullName]
    unfold Database.addEnum
    rw [if_pos hknown]
    exact hr

theorem addConstantTo_absent {place : Place} (name : String) (value : Int) :
    ∀ {enums : List EnumEntry}, (∀ e ∈ enums, e.declaredAt place = false) →
      Database.addConstantTo place name value enums = enums
  | [], _ => rfl
  | entry :: rest, h => by
    rw [Database.addConstantTo, h entry (List.mem_cons_self ..),
      addConstantTo_absent name value fun e he => h e (List.mem_cons_of_mem _ he)]
    rfl

theorem constant_rests (hr : b.Rests s.db) (hnew : ∀ e ∈ b.enums, e.declaredAt parent'.place = false) :
    (s.visitConstant decl' parent').RestsAt b s .pass := by
  refine ⟨_, _, rfl, ?_⟩
  unfold Database.addConstant
  rw [addConstantTo_absent _ _ (hr.enums ▸ hnew)]
  exact hr

theorem alias_rests (h : Abreast U a s decl decl' parent parent') (hr : b.Rests s.db)
    (hsame : FindSame a.db.types b.types (a.scopeOf parent) decl.underlying)
    (hok : (a.visitAlias decl parent).answer = .ok d) (hg : (a.visitAlias decl parent).collector.db.Grows b) :
    (s.visitAlias decl' parent').RestsAt b s d := by
  have hunder : TypeRef.ofTree decl'.underlying = TypeRef.ofTree decl.underlying := by
    have : decl'.underlying.erase = decl.underlying.erase := by
      have := congrArg Decl.underlying h.same
      exact this
    rw [← TypeRef.ofTree_erase, this, TypeRef.ofTree_erase]
  unfold Collector.visitAlias at hok hg ⊢
  simp only [h.spelling, h.scopeName?, hunder] at hok hg ⊢
  cases hscope : a.db.scopeName? parent.chain with
  | none =>
    rw [hscope] at hok
    cases hok
    exact ⟨_, _, rfl, hr⟩
  | some context =>
    rw [hscope] at hok hg
    cases hok
    simp only at hg ⊢
    rw [Collector.scopeOf, hscope, Option.getD_some] at hsame
    have hentry : s.aliasEntry decl.spelling (Scope.split context) (.ofTree decl.underlying) =
        a.aliasEntry decl.spelling (Scope.split context) (.ofTree decl.underlying) := by
      apply Collector.aliasEntry_congr
      rw [hr.types]
      exact hsame
    rw [hentry]
    have hknown : s.db.knowsType (a.aliasEntry decl.spelling (Scope.split context) (.ofTree decl.underlying)).1 = true := by
      unfold Database.knowsType
      rw [hr.types]
      apply hg.types
      simp only [Collector.answer, Database.addType]
      split
      · rename_i hold
        exact hold
      · unfold Database.knowsType
        rw [List.any_append]
        simp [TypeRef.sameEntry]
    refine ⟨_, _, rfl, ?_⟩
    unfold Database.addType
    rw [if_pos hknown]
    exact hr

theorem function_rests (h : Abreast U a s decl decl' parent parent') (hr : b.Rests s.db)
    (hsame : ∀ type ∈ decl.parameterTypes, FindSame a.db.types b.types (a.scopeOf parent) type)
    (hok : (a.visitFunction decl parent).answer = .ok d) (hg : (a.visitFunction decl parent).collector.db.Grows b) :
    (s.visitFunction decl' parent').RestsAt b s (if decl.kind = .functionTemplate then .pass else d) := by
  have hscope : s.scopeOf parent' = a.scopeOf parent := by
    rw [Collector.scopeOf, Collector.scopeOf, h.scopeName?]
  obtain ⟨signature, hsig, hknows, hpass⟩ := a.visitFunction_knows hok
  obtain ⟨signature', hsig', hparams⟩ := readSignature_congr hsame hsig
  rw [← readSignature_erase, ← h.same, readSignature_erase, ← hscope, ← hr.types] at hsig'
  have hname : (s.functionRecord decl' parent' signature').fullName = (a.functionRecord decl parent signature).fullName := by
    simp only [Collector.functionRecord, h.scopeName?, h.spelling]
  have hknown : s.db.knowsFunction (s.functionRecord decl' parent' signature') = true := by
    rw [Database.knowsFunction_congr s.db hname hparams, Database.knowsFunction, hr.functions]
    exact hg.functions _ hknows
  rw [s.visitFunction_of_known hsig' hknown]
  split
  · exact ⟨_, _, rfl, hr⟩
  · rename_i hk
    rw [hpass hk]
    exact ⟨_, _, rfl, hr⟩

/-! ## Classes and their members -/

theorem class_rests (h : Abreast U a s decl decl' parent parent') (hr : b.Rests s.db)
    (hk : decl.kind.isClass = true) (hc : s.classContext parent' = a.classContext parent)
    (hok : (a.visitClass decl parent).answer = .ok d) (hg : (a.visitClass decl parent).collector.db.Grows b) :
    (s.visitClass decl' parent').RestsAt b s (if b.shuts decl then .pass else d) := by
  have hpass : ∀ notes, (s.answer s.db .pass notes).RestsAt b s (if b.shuts decl then .pass else .pass) := by
    intro notes
    rw [ite_self]
    exact ⟨_, _, rfl, hr⟩
  unfold Collector.visitClass at hok hg ⊢
  simp only [h.spelling, hc] at hok hg ⊢
  split at hok
  · rename_i hn
    rw [if_pos hn]
    cases hok
    exact hpass _
  · rename_i hn
    rw [if_neg hn] at hg ⊢
    cases hscope : a.classContext parent with
    | hidden =>
      rw [hscope] at hok
      cases hok
      exact hpass _
    | unknown =>
      rw [hscope] at hok
      cases hok
      exact hpass _
    | within scope =>
      rw [hscope] at hok hg
      simp only [Collector.answer, Database.addClass_entersMembers] at hok hg ⊢
      have hknown := hg.classes (scope ++ "::" ++ decl.spelling)
        (by rw [Database.digest?, Database.findClass?_addClass, if_pos rfl]; rfl)
      have hrests : ∀ (record : Class) (place : Place) (access : Access),
          record.fullName = scope ++ "::" ++ decl.spelling → b.Rests (s.db.addClass record place access).db := by
        intro record place access hname
        apply hr.addClass
        rw [hname]
        exact hknown
      have hshuts : b.shuts decl = b.isFull (scope ++ "::" ++ decl.spelling) :=
        b.shuts_of_declares ⟨hk, h.first.class_written hk hscope⟩
      -- a class that has members only now had none when the first walk came
      have hfull : b.isFull (scope ++ "::" ++ decl.spelling) = false →
          a.db.isFull (scope ++ "::" ++ decl.spelling) = false := by
        intro hempty
        by_contra hn
        rw [Bool.not_eq_false] at hn
        rw [((Database.Grows.addClass ..).trans hg).full _ hn] at hempty
        cases hempty
      have hanswer : (if !s.db.isFull (scope ++ "::" ++ decl.spelling) then Directive.enter else .pass) =
          if b.shuts decl then .pass else d := by
        rw [hshuts, hr.isFull]
        cases hfb : b.isFull (scope ++ "::" ++ decl.spelling) with
        | true => rfl
        | false =>
          rw [hfull hfb] at hok
          cases hok
          rfl
      rw [hanswer]
      exact ⟨_, _, rfl, hrests _ _ _ rfl⟩

theorem not_fills (h : Abreast U a s decl decl' parent parent') {entry : ClassEntry}
    (hat : a.db.classAt? parent.place = some entry) (hs : decl.kind.standsAlone = false)
    (hopen : b.isFull entry.fullName = false) (hok : (a.visitMember entry decl).answer = .ok d)
    (hg : (a.visitMember entry decl).collector.db.Grows b) : decl.kind.fills = false := by
  by_contra hf
  rw [Bool.not_eq_false] at hf
  obtain ⟨change, hdb, hext⟩ := a.visitMember_extends entry decl hok
  have hfull := h.first.isFull_of_fills (h.first.declares_of_classAt? hat) hf (.member entry change hs hat hdb hext d)
  rw [hg.full _ hfull] at hopen
  cases hopen

section
variable {entry entry' : ClassEntry} (hat : a.db.classAt? parent.place = some entry)
  (hat' : s.db.classAt? parent'.place = some entry')
include hat hat'

theorem field_rests (h : Abreast U a s decl decl' parent parent') (hr : b.Rests s.db) (hua : a.db.UniqueClasses)
    (hus : s.db.UniqueClasses) (isStatic : Bool) (hok : (a.addField entry decl isStatic).answer = .ok d)
    (hg : (a.addField entry decl isStatic).collector.db.Grows b) :
    (s.addField entry' decl' isStatic).RestsAt b s d := by
  have hname : entry'.fullName = entry.fullName := by
    have := h.classAt?
    rw [hat, hat'] at this
    exact Option.some.inj this
  have hfind := hua.findClass? (List.mem_of_find?_eq_some hat)
  have hfind' := hus.findClass? (List.mem_of_find?_eq_some hat')
  obtain ⟨rfl, hv, hknows⟩ := a.addField_knows hfind hok
  have hv' : decl'.type.isInvalid = false := by
    have ht : decl'.type.erase = decl.type.erase := by
      have := congrArg Decl.type h.same
      exact this
    rw [← TypeTree.isInvalid_erase, ht, TypeTree.isInvalid_erase, hv]
  have hknown : s.db.knowsField entry'.fullName decl'.spelling = true := by
    rw [hr.knowsField, hname, h.spelling]
    exact hg.fields _ _ hknows
  rw [s.addField_of_known hfind' hv' isStatic hknown]
  exact ⟨_, _, rfl, hr⟩

theorem member_rests (h : Abreast U a s decl decl' parent parent') (hr : b.Rests s.db) (hua : a.db.UniqueClasses)
    (hus : s.db.UniqueClasses) (hs : decl.kind.standsAlone = false) (hopen : b.isFull entry.fullName = false)
    (hplain : decl.kind ≠ .templateTypeParameter) (hok : (a.visitMember entry decl).answer = .ok d)
    (hg : (a.visitMember entry decl).collector.db.Grows b) : (s.visitMember entry' decl').RestsAt b s d := by
  have hfills := h.not_fills hat hs hopen hok hg
  unfold Collector.visitMember at hok hg ⊢
  simp only [h.kind] at hok hg ⊢
  split at hok
  · rename_i hk
    exact absurd hk hplain
  · rename_i hk
    simp [hk, NodeKind.fills] at hfills
  · cases hok
    exact ⟨_, _, rfl, hr.updateClass _ fun _ => rfl⟩
  · rename_i hk
    simp [hk, NodeKind.fills, NodeKind.isMethod] at hfills
  · rename_i hk
    simp [hk, NodeKind.fills, NodeKind.isMethod] at hfills
  · rename_i hk
    simp [hk, NodeKind.fills] at hfills
  · rename_i hk
    rw [hk] at hg
    exact h.field_rests hat hat' hr hua hus false hok hg
  · rename_i hk
    rw [hk] at hg
    exact h.field_rests hat hat' hr hua hus true hok hg
  · cases hok
    exact ⟨_, _, rfl, hr⟩
  · cases hok
    exact ⟨_, _, rfl, hr⟩

end

/-! ## Events -/

theorem inner_rests (h : Abreast U a s decl decl' parent parent') (hr : b.Rests s.db) (hua : a.db.UniqueClasses)
    (hus : s.db.UniqueClasses) (hset : Settled b a decl parent) (hi : a.counts decl = true)
    (hopen : ∀ name, parent.Declares name → b.isFull name = false) (hs : decl.kind.standsAlone = false)
    (hok : (a.visitDecl decl parent).answer = .ok d) (hg : (a.visitDecl decl parent).collector.db.Grows b) :
    (s.visitDecl decl' parent').RestsAt b s (if b.shuts decl then .pass else d) := by
  have hs' : decl'.kind.standsAlone = false := by rw [h.kind, hs]
  have hclass : decl.kind.isClass = false := by
    cases hk : decl.kind <;> simp_all [NodeKind.standsAlone, NodeKind.isClass]
  have hat := h.classAt?
  rw [a.visitDecl_of_inner hs] at hok hg
  rw [s.visitDecl_of_inner hs', h.kind, h.spelling]
  cases ha : a.db.classAt? parent.place with
  | some entry =>
    rw [ha] at hok hg hat
    obtain ⟨entry', ha', -⟩ := Option.map_eq_some_iff.mp hat
    rw [ha']
    have hempty := hopen _ (h.first.declares_of_classAt? ha)
    have hplain : decl.kind ≠ .templateTypeParameter := by
      intro hk
      rw [hset.isFull hk hi (h.first.declares_of_classAt? ha)] at hempty
      cases hempty
    have htemplate : decl.kind ≠ .functionTemplate := by
      intro hk
      have hfills := h.not_fills ha hs hempty hok hg
      simp [hk, NodeKind.fills, NodeKind.isMethod] at hfills
    have hshuts : b.shuts decl = false := by simp [Database.shuts, Database.shutsAt, hclass, hplain, htemplate]
    rw [hshuts]
    exact h.member_rests ha ha' hr hua hus hs hempty hplain hok hg
  | none =>
    rw [ha] at hok hg hat
    rw [Option.map_none, Option.map_eq_none_iff] at hat
    rw [hat]
    simp only at hok hg ⊢
    split at hok
    · rename_i hk
      rw [if_pos hk] at hg ⊢
      have htypes : ∀ type ∈ decl.parameterTypes, FindSame a.db.types b.types (a.scopeOf parent) type := by
        have htypes := hset.types
        unfold Collector.decisiveTypes at htypes
        rcases hk with hk | hk
        all_goals
          rw [hk, ha] at htypes
          exact htypes
      have hshuts : b.shuts decl = decide (decl.kind = .functionTemplate) := by
        rcases hk with hk | hk <;> simp [Database.shuts, Database.shutsAt, hk, NodeKind.isClass]
      simp only [hshuts, decide_eq_true_eq]
      exact h.function_rests hr htypes hok hg
    · rename_i hk
      rw [if_neg hk]
      cases hok
      rw [ite_self]
      exact ⟨_, _, rfl, hr⟩

theorem decl_rests (h : Abreast U a s decl decl' parent parent') (hr : b.Rests s.db) (hua : a.db.UniqueClasses)
    (hus : s.db.UniqueClasses) (hset : Settled b a decl parent) (hi : a.counts decl = true)
    (hopen : ∀ name, parent.Declares name → b.isFull name = false ∧ s.db.digest? name = a.db.digest? name)
    (hnew : ∀ e ∈ b.enums, e.declaredAt parent'.place = false)
    (hok : (a.visitDecl decl parent).answer = .ok d) (hg : (a.visitDecl decl parent).collector.db.Grows b) :
    (s.visitDecl decl' parent').RestsAt b s (if b.shuts decl then .pass else d) := by
  by_cases hs : decl.kind.standsAlone = false
  · exact h.inner_rests hr hua hus hset hi (fun name hp => (hopen name hp).1) hs hok hg
  have hctx := h.classContext hua hus fun name hp => (hopen name hp).2
  have hshut : decl.kind.isClass = false → b.shuts decl = false := by
    intro hc
    cases hk : decl.kind <;> simp_all [Database.shuts, Database.shutsAt, NodeKind.standsAlone, NodeKind.isClass]
  have htypes := hset.types
  unfold Collector.decisiveTypes at htypes
  unfold Collector.visitDecl at hok hg ⊢
  simp only [h.kind] at hok hg ⊢
  split at hok
  · rename_i hk
    rw [hk] at hg
    rw [hshut (by simp [hk, NodeKind.isClass])]
    exact h.namespace_rests hr hok hg
  · rename_i hk
    rw [hk] at hg htypes
    rw [hshut (by simp [hk, NodeKind.isClass])]
    exact h.alias_rests hr (htypes _ (List.mem_singleton.mpr rfl)) hok hg
  · rename_i hk
    rw [hk] at hg htypes
    rw [hshut (by simp [hk, NodeKind.isClass])]
    exact h.alias_rests hr (htypes _ (List.mem_singleton.mpr rfl)) hok hg
  · rename_i hk
    rw [hk] at hg
    rw [hshut (by simp [hk, NodeKind.isClass])]
    exact h.enum_rests hr hok hg
  · rename_i hk
    rw [hshut (by simp [hk, NodeKind.isClass])]
    cases hok
    exact constant_rests hr hnew
  · rename_i hk
    rw [hk] at hg
    exact h.class_rests hr (by simp [hk, NodeKind.isClass]) hctx hok hg
  · rename_i hk
    rw [hk] at hg
    exact h.class_rests hr (by simp [hk, NodeKind.isClass]) hctx hok hg
  · rename_i hk
    rw [hk] at hg
    exact h.class_rests hr (by simp [hk, NodeKind.isClass]) hctx hok hg
  · rename_i hk
    rw [hshut (by simp [hk, NodeKind.isClass])]
    cases hok
    exact ⟨_, _, rfl, hr⟩
  · exact absurd (by cases hk : decl.kind <;> simp_all [NodeKind.standsAlone, NodeKind.isClass]) hs

theorem taken_rests (h : Abreast U a s decl decl' parent parent') (hr : b.Rests s.db) (hset : Settled b a decl parent)
    (hi : a.counts decl = true) (hopen : ∀ name, parent.Declares name → b.isFull name = false)
    (ht : Collector.takes decl.kind = some d) :
    ∃ d', (s.visitDecl decl' parent').RestsAt b s d' ∧ (decl.kind.isReference = false → d' = .pass) := by
  have hs : decl'.kind.standsAlone = false := by
    rw [h.kind]
    cases hk : decl.kind <;> simp_all [Collector.takes, NodeKind.standsAlone, NodeKind.isClass]
  rw [s.visitDecl_of_inner hs, h.kind]
  cases hat' : s.db.classAt? parent'.place with
  | none =>
    refine ⟨.pass, ?_, fun _ => rfl⟩
    rw [if_neg (by cases hk : decl.kind <;> simp_all [Collector.takes])]
    exact ⟨_, _, rfl, hr⟩
  | some entry' =>
    have hparent := (h.parent_declares_iff _).mp (h.second.declares_of_classAt? hat')
    have hplain : decl.kind ≠ .templateTypeParameter := by
      intro hk
      have hempty := hopen _ hparent
      rw [hset.isFull hk hi hparent] at hempty
      cases hempty
    refine ⟨.enter, ?_, ?_⟩
    · have hk : decl'.kind = .typeRef ∨ decl'.kind = .namespaceRef := by
        rw [h.kind]
        cases hk : decl.kind <;> simp_all [Collector.takes]
      unfold Collector.visitMember
      rcases hk with hk | hk
      all_goals
        simp only [hk]
        exact ⟨_, _, rfl, hr⟩
    · intro hn
      cases hk : decl.kind <;> simp_all [Collector.takes, NodeKind.isReference]

theorem visit_rests (h : Abreast U a s decl decl' parent parent') (hc : s.openClass = none)
    (hf : s.openFunction = none) (hr : b.Rests s.db) (hua : a.db.UniqueClasses) (hus : s.db.UniqueClasses)
    (hset : Settled b a decl parent)
    (hopen : ∀ name, parent.Declares name → b.isFull name = false ∧ s.db.digest? name = a.db.digest? name)
    (hnew : ∀ e ∈ b.enums, e.declaredAt parent'.place = false)
    (hok : (a.visit decl parent).answer = .ok d) (hg : (a.visit decl parent).collector.db.Grows b) :
    ∃ d', (s.visit decl' parent').RestsAt b s d' ∧ (b.shuts decl = true → d' = .pass) ∧
      (b.shuts decl = false → decl.kind.isReference = false → d' = d) := by
  rw [s.visit_of_closed hc hf, h.counts]
  rcases a.visit_cases decl parent with ⟨hi, hv⟩ | ⟨hi, a', d', ha, ht, hv⟩ | ⟨hi, a', ha, -, -, hv⟩
  · have hi : a.counts decl = false := hi
    rw [hv] at hok
    cases hok
    rw [hi]
    exact ⟨.pass, ⟨_, _, rfl, hr⟩, fun _ => rfl, fun _ _ => rfl⟩
  · have hi : a.counts decl = true := hi
    rw [if_pos hi]
    obtain ⟨d'', hrest, hpass⟩ := h.taken_rests hr hset hi (fun name hp => (hopen name hp).1) ht
    refine ⟨d'', hrest, ?_, ?_⟩
    · intro hshut
      apply hpass
      cases hk : decl.kind <;> simp_all [Collector.takes, Database.shuts, Database.shutsAt, NodeKind.isReference, NodeKind.isClass]
    · intro hshut href
      cases hk : decl.kind <;> simp_all [Collector.takes, Database.shuts, Database.shutsAt, NodeKind.isReference]
  · have hi : a.counts decl = true := hi
    rw [if_pos hi]
    rw [hv] at hok hg
    have hi' : a'.counts decl = true := by
      rw [Collector.counts_congr ha.base ha.roots]
      exact hi
    have hopen' : ∀ name, parent.Declares name → b.isFull name = false ∧ s.db.digest? name = a'.db.digest? name := by
      intro name hp
      rw [Database.digest?_of_outline ha.outline]
      exact hopen name hp
    have hrest := (h.alike ha).decl_rests hr (hua.of_outline ha.outline) hus (hset.alike ha) hi' hopen' hnew hok hg
    refine ⟨_, hrest, ?_, ?_⟩
    · intro hshut
      rw [if_pos hshut]
    · intro hshut _
      rw [hshut]
      rfl

end Abreast

end SymbolIndex
