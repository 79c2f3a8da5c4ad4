import Mathlib.Data.List.Forall2
import SymbolIndex.Proofs.Lists
import SymbolIndex.Proofs.TypeUse

/-!
# Overloads

Functions of one full name are told apart by the texts of their parameters' types. A declaration that
adds no function repeats one that did: parameter by parameter, the two types come down to the same name
under as many pointers and references.
-/

namespace SymbolIndex

/-! ## Functions by name and parameters -/

theorem pairwiseSame_iff {α : Type} {same : α → α → Bool} : ∀ {as bs : List α},
    pairwiseSame same as bs = true ↔ List.Forall₂ (fun a b => same a b = true) as bs
  | [], [] => by simp [pairwiseSame]
  | [], _ :: _ => by simp [pairwiseSame]
  | _ :: _, [] => by simp [pairwiseSame]
  | a :: as, b :: bs => by
    rw [pairwiseSame, Bool.and_eq_true, List.forall₂_cons, pairwiseSame_iff]

namespace Database

def functionKeys (db : Database) : List (String × List Parameter) := db.functions.map fun f => (f.fullName, f.params)

theorem length_functionKeys (db : Database) : db.functionKeys.length = db.functions.length := List.length_map ..

theorem functionKeys_of_outline {db db' : Database} (ho : db'.outline = db.outline) :
    db'.functionKeys = db.functionKeys := by
  have hview : ∀ d : Database, d.functionKeys = d.outline.functions.map fun f => (f.fullName, f.params) := by
    intro d
    simp only [functionKeys, outline, List.map_map]
    rfl
  rw [hview, ho, ← hview]

theorem classAt?_eq_none_of_outline {db db' : Database} (ho : db'.outline = db.outline) (place : Place) :
    db'.classAt? place = none ↔ db.classAt? place = none := by
  have hname := db'.classAt?_name place
  rw [(marks_of_outline ho).2, ← db.classAt?_name] at hname
  rw [← Option.map_eq_none_iff (f := ClassEntry.fullName), hname, Option.map_eq_none_iff]

theorem knowsFunction_iff (db : Database) (f : FreeFunction) :
    db.knowsFunction f = true ↔
      ∃ key ∈ db.functionKeys, key.1 = f.fullName ∧
        List.Forall₂ (fun p q : Parameter => p.typeText = q.typeText) key.2 f.params := by
  simp only [knowsFunction, functionKeys, List.any_eq_true, Bool.and_eq_true, beq_iff_eq, Signature.sameParams,
    pairwiseSame_iff, Parameter.same]
  constructor
  · rintro ⟨known, hm, hsame⟩
    exact ⟨(known.fullName, known.params), List.mem_map_of_mem hm, hsame⟩
  · rintro ⟨key, hkey, hsame⟩
    obtain ⟨known, hm, rfl⟩ := List.mem_map.mp hkey
    exact ⟨known, hm, hsame⟩

theorem functionKeys_addFunction (db : Database) (f : FreeFunction) :
    (db.addFunction f).functionKeys =
      if db.knowsFunction f then db.functionKeys else db.functionKeys ++ [(f.fullName, f.params)] := by
  unfold addFunction
  split
  · rfl
  · simp [functionKeys]

end Database

/-! ## Reading parameters -/

theorem readSignature_texts {decl : Decl} {table : List TypeRef} {scope : List String} {signature : Signature}
    (hnamed : ∀ t ∈ table, t.fullName ≠ "") (h : readSignature decl table scope = .ok signature) :
    List.Forall₂ (fun u p => TypeUse.text u = Parameter.typeText p)
      (decl.parameterTypes.map fun tree => ⟨tree, table, scope⟩) signature.params := by
  unfold readSignature at h
  unfold Decl.parameterTypes
  cases hp : decl.prototype with
  | none =>
    rw [hp] at h
    cases h
    exact .nil
  | some prototype =>
    rw [hp] at h
    simp only [Option.elim_some] at h ⊢
    cases hm : (argumentSlots prototype.arguments decl.arguments).mapM
        fun slot => resolveParameter slot.1 table slot.2 scope with
    | error e =>
      rw [hm] at h
      cases h
    | ok params =>
      rw [hm] at h
      cases h
      rw [List.map_map, List.forall₂_map_left_iff]
      refine (mapM_ok hm).imp ?_
      intro slot param hslot
      unfold resolveParameter at hslot
      split at hslot
      · cases hslot
      · cases hslot
        exact (TypeUse.typeText_eq (u := ⟨slot.1, table, scope⟩) hnamed slot.2).symm

/-! ## Events of functions -/

theorem Collector.visitFunction_cases (c : Collector) (decl : Decl) (parent : Site) :
    (∃ broken, (c.visitFunction decl parent).answer = .error broken ∧ (c.visitFunction decl parent).collector.db = c.db) ∨
    ∃ signature d, readSignature decl c.db.types (c.scopeOf parent) = .ok signature ∧
      (c.visitFunction decl parent).answer = .ok d ∧
      (c.visitFunction decl parent).collector.db = c.db.addFunction (c.functionRecord decl parent signature) := by
  cases hread : readSignature decl c.db.types (c.scopeOf parent) with
  | error broken =>
    have hfails : c.visitFunction decl parent = { collector := c, answer := .error broken } := by
      unfold scopeOf at hread
      simp only [visitFunction, hread]
    rw [hfails]
    exact Or.inl ⟨broken, rfl, rfl⟩
  | ok signature =>
    right
    by_cases hknown : c.db.knowsFunction (c.functionRecord decl parent signature) = true
    · have hsame : c.db.addFunction (c.functionRecord decl parent signature) = c.db := if_pos hknown
      rw [c.visitFunction_of_known hread hknown]
      exact ⟨signature, .pass, rfl, rfl, hsame.symm⟩
    · unfold scopeOf at hread
      unfold functionRecord at hknown
      by_cases hk : decl.kind = .functionTemplate
      · refine ⟨signature, .enter, rfl, ?_⟩
        simp only [visitFunction, hread, if_neg hknown, if_pos hk]
        exact ⟨rfl, rfl⟩
      · refine ⟨signature, .pass, rfl, ?_⟩
        simp only [visitFunction, hread, if_neg hknown, if_neg hk]
        exact ⟨rfl, rfl⟩

theorem Collector.Writes.functionKeys {c : Collector} {decl : Decl} {parent : Site} {db : Database}
    (h : c.Writes decl parent db) :
    db.functionKeys = c.db.functionKeys ∨
      ((decl.kind = .functionDecl ∨ decl.kind = .functionTemplate) ∧ c.db.classAt? parent.place = none) := by
  cases h with
  | nothing => exact Or.inl rfl
  | ofNamespace kind named =>
    left
    unfold Database.addNamespace
    split <;> rfl
  | ofClass scope kind named context =>
    left
    unfold Database.addClass
    split <;> rfl
  | ofEnum kind named =>
    left
    unfold Database.addEnum
    split <;> rfl
  | ofConstant kind => exact Or.inl rfl
  | ofAlias scope kind context =>
    left
    unfold Database.addType
    split <;> rfl
  | ofFunction signature kind free read => exact Or.inr ⟨kind, free⟩
  | ofMember owner kind known adds => exact Or.inl rfl

namespace Moment

/-- The event declares a function outside every class, in a file that counts. -/
structure OfFunction (m : Moment) : Prop where
  counted : m.before.counts m.decl = true
  kind : m.decl.kind = .functionDecl ∨ m.decl.kind = .functionTemplate
  free : m.before.db.classAt? m.parent.site.place = none

def functionName (m : Moment) : String :=
  (m.before.db.scopeName? m.parent.site.chain).getD "" ++ "::" ++ m.decl.spelling

def uses (m : Moment) : List TypeUse :=
  m.decl.parameterTypes.map fun tree => ⟨tree, m.before.db.types, m.before.scopeOf m.parent.site⟩

def Registers (m : Moment) : Prop :=
  m.OfFunction ∧ m.after.db.functions.length = m.before.db.functions.length + 1

def Drops (m : Moment) : Prop :=
  m.OfFunction ∧ (∃ d, m.outcome.answer = .ok d) ∧ m.after.db.functions.length = m.before.db.functions.length

def Reads (m : Moment) (key : String × List Parameter) : Prop :=
  ∃ signature, readSignature m.decl m.before.db.types (m.before.scopeOf m.parent.site) = .ok signature ∧
    key = (m.functionName, signature.params)

theorem OfFunction.visit {m : Moment} (h : m.OfFunction) :
    ∃ c, m.before.Alike c ∧ m.outcome = c.visitFunction m.decl m.parent.site := by
  have hinner : m.decl.kind.standsAlone = false := by
    rcases h.kind with hk | hk <;> rw [hk] <;> rfl
  rcases m.before.visit_cases m.decl m.parent.site with ⟨hout, -⟩ | ⟨-, c, d, -, htakes, -⟩ | ⟨-, c, ha, -, -, hvisit⟩
  · have hcounted : m.before.includes (m.before.fileOf m.decl) = true := h.counted
    rw [hout] at hcounted
    cases hcounted
  · rcases h.kind with hk | hk <;> rw [hk] at htakes <;> cases htakes
  · refine ⟨c, ha, ?_⟩
    have hfree := (Database.classAt?_eq_none_of_outline ha.outline _).mpr h.free
    rw [outcome, hvisit, c.visitDecl_of_inner hinner, hfree]
    exact if_pos h.kind

theorem OfFunction.functionKeys {m : Moment} (h : m.OfFunction) {d : Directive} (hok : m.outcome.answer = .ok d) :
    ∃ key, m.Reads key ∧
      ((m.after.db.functionKeys = m.before.db.functionKeys ∧ ∃ known ∈ m.before.db.functionKeys, known.1 = key.1 ∧
          List.Forall₂ (fun p q : Parameter => p.typeText = q.typeText) known.2 key.2) ∨
        m.after.db.functionKeys = m.before.db.functionKeys ++ [key]) := by
  obtain ⟨c, ha, hvisit⟩ := h.visit
  rw [hvisit] at hok
  rcases c.visitFunction_cases m.decl m.parent.site with ⟨broken, herror, -⟩ | ⟨signature, d', hread, -, hdb⟩
  · rw [herror] at hok
    cases hok
  · have hscope : c.scopeOf m.parent.site = m.before.scopeOf m.parent.site := by
      rw [Collector.scopeOf, Collector.scopeOf, Database.scopeName?_of_outline ha.outline]
    have hname : (c.functionRecord m.decl m.parent.site signature).fullName = m.functionName := by
      simp only [Collector.functionRecord, functionName, Database.scopeName?_of_outline ha.outline]
    rw [Database.types_of_outline ha.outline, hscope] at hread
    refine ⟨(m.functionName, signature.params), ⟨signature, hread, rfl⟩, ?_⟩
    have hkeys : m.after.db.functionKeys =
        (c.db.addFunction (c.functionRecord m.decl m.parent.site signature)).functionKeys := by
      rw [after, hvisit, hdb]
    rw [Database.functionKeys_addFunction, Database.functionKeys_of_outline ha.outline, hname] at hkeys
    by_cases hknown : c.db.knowsFunction (c.functionRecord m.decl m.parent.site signature) = true
    · rw [if_pos hknown] at hkeys
      rw [Database.knowsFunction_iff, Database.functionKeys_of_outline ha.outline, hname] at hknown
      exact Or.inl ⟨hkeys, hknown⟩
    · rw [if_neg hknown] at hkeys
      exact Or.inr hkeys

theorem functionKeys_step (m : Moment) :
    m.after.db.functionKeys = m.before.db.functionKeys ∨
      ∃ key, (m.Registers ∧ m.Reads key) ∧ m.after.db.functionKeys = m.before.db.functionKeys ++ [key] := by
  by_cases h : m.OfFunction
  · cases hanswer : m.outcome.answer with
    | error broken =>
      obtain ⟨c, ha, hvisit⟩ := h.visit
      left
      rcases c.visitFunction_cases m.decl m.parent.site with ⟨-, -, hdb⟩ | ⟨signature, d, -, hok, -⟩
      · rw [after, hvisit, hdb, Database.functionKeys_of_outline ha.outline]
      · rw [hvisit, hok] at hanswer
        cases hanswer
    | ok d =>
      obtain ⟨key, hreads, ⟨hsame, -⟩ | hnew⟩ := h.functionKeys hanswer
      · exact Or.inl hsame
      · have hlength : m.after.db.functions.length = m.before.db.functions.length + 1 := by
          rw [← Database.length_functionKeys, hnew, List.length_append, Database.length_functionKeys]
          rfl
        exact Or.inr ⟨key, ⟨⟨h, hlength⟩, hreads⟩, hnew⟩
  · left
    by_cases counted : m.before.counts m.decl = true
    · rcases m.before.visit_writes m.decl m.parent.site with hsame | hwrites
      · exact congrArg Database.functionKeys hsame
      · have ho := (m.before.offered_alike m.decl m.parent.site).outline
        rcases hwrites.functionKeys with hsame | ⟨kind, free⟩
        · exact hsame.trans (Database.functionKeys_of_outline ho)
        · exact absurd ⟨counted, kind, (Database.classAt?_eq_none_of_outline ho _).mp free⟩ h
    · have hpassed : m.outcome = m.before.answer m.before.db .pass [] := if_neg counted
      rw [after, hpassed]
      rfl

theorem functionKeys_run {db db' : Database} {ms : List Moment} (h : Chained db ms db') :
    ∀ key ∈ db'.functionKeys, key ∈ db.functionKeys ∨ ∃ m ∈ ms, m.Registers ∧ m.Reads key := by
  intro key hkey
  obtain ⟨i, hi⟩ := List.mem_iff_getElem?.mp hkey
  rcases h.origin functionKeys_step hi with hold | ⟨m, hm, hadds, -⟩
  · exact Or.inl (List.mem_of_getElem? hold)
  · exact Or.inr ⟨m, hm, hadds⟩

theorem Reads.texts {m : Moment} {key : String × List Parameter} (h : m.Reads key) (ht : m.before.db.ledger.Tidy) :
    List.Forall₂ (fun u p => TypeUse.text u = Parameter.typeText p) m.uses key.2 := by
  obtain ⟨signature, hread, rfl⟩ := h
  exact readSignature_texts (fun t hm => (ht.types t hm).2) hread

theorem uses_tidy {m : Moment} (ht : m.before.db.ledger.Tidy) : ∀ u ∈ m.uses, u.Tidy := by
  intro u hu
  obtain ⟨tree, -, rfl⟩ := List.mem_map.mp hu
  exact TypeUse.tidy fun t hm => (ht.types t hm).1

end Moment

theorem agrees_of_texts {us vs : List TypeUse} {ps qs : List Parameter} (hus : ∀ u ∈ us, u.Tidy) (hvs : ∀ v ∈ vs, v.Tidy)
    (hu : List.Forall₂ (fun u p => TypeUse.text u = Parameter.typeText p) us ps)
    (hpq : List.Forall₂ (fun p q : Parameter => p.typeText = q.typeText) ps qs)
    (hv : List.Forall₂ (fun v q => TypeUse.text v = Parameter.typeText q) vs qs) :
    List.Forall₂ TypeUse.Agrees us vs := by
  induction hu generalizing qs vs with
  | nil =>
    cases hpq
    cases hv
    exact .nil
  | @cons u p us ps hup _ ih =>
    cases hpq with
    | cons hpq hrest =>
      cases hv with
      | @cons v _ vs _ hvq hrest' =>
        have htext : u.text = v.text := by rw [hup, hpq, hvq]
        refine .cons ((hus u (List.mem_cons_self ..)).agrees (hvs v (List.mem_cons_self ..)) htext) ?_
        exact ih (fun u hm => hus u (List.mem_cons_of_mem _ hm)) (fun v hm => hvs v (List.mem_cons_of_mem _ hm)) hrest
          hrest'

/-- A declaration that adds no function comes after one that did, of the same full name and with types of
parameters that agree pairwise. -/
theorem function_dropped_only_as_repeated {base : String} {roots : List String} {units : List SourceUnit}
    {older newer : List Moment} {m : Moment}
    (cut : (Collector.start base roots {}).history units = older ++ m :: newer) (drops : m.Drops) :
    ∃ first ∈ older, first.Registers ∧ first.functionName = m.functionName ∧
      List.Forall₂ TypeUse.Agrees first.uses m.uses := by
  have hchained := Collector.chained_history units (Collector.start base roots {})
  have htidy := hchained.invariant (P := fun db => db.ledger.Tidy)
    (fun m _ h => Collector.ledger_keeps (fun _ _ ht hs => ht.tidy hs) h) Ledger.Tidy.empty
  rw [cut] at hchained htidy
  obtain ⟨hof, ⟨d, hok⟩, hlength⟩ := drops
  obtain ⟨key, hreads, ⟨-, known, hknown, hname, hparams⟩ | hnew⟩ := hof.functionKeys hok
  · rcases Moment.functionKeys_run hchained.split.1 known hknown with hm | ⟨first, hfirst, hregisters, hreads'⟩
    · cases hm
    · have ht := (htidy.2 m (List.mem_append_right _ (List.mem_cons_self ..))).1
      have ht' := (htidy.2 first (List.mem_append_left _ hfirst)).1
      refine ⟨first, hfirst, hregisters, ?_, ?_⟩
      · obtain ⟨_, -, rfl⟩ := hreads
        obtain ⟨_, -, rfl⟩ := hreads'
        exact hname
      · exact agrees_of_texts (Moment.uses_tidy ht') (Moment.uses_tidy ht) (hreads'.texts ht') hparams (hreads.texts ht)
  · have := congrArg List.length hnew
    rw [List.length_append, Database.length_functionKeys, Database.length_functionKeys, hlength] at this
    simp at this

namespace Repeated

def function (serial : Nat) (prototype : Prototype) : Decl :=
  { (Decl.wholeFile 0).within serial .functionDecl "f" with prototype := some prototype }

def int (isConst : Bool) : TypeTree := .builtin ⟨"int", isConst⟩ .int

-- `typedef const int *P;`
def short : Decl := { (Decl.wholeFile 0).within 1 .typedefDecl "P" with underlying := .pointer {} (int true) }

def named (spelling : String) : TypeTree := .named ⟨spelling, false⟩ .record none

def unit (first second : Prototype) : SourceUnit :=
  ⟨.wholeFile 0, .ofList [(short, .nil), (function 2 first, .nil), (function 3 second, .nil)]⟩

-- `void f(P &);` and `void f(const int *&);`
def byAlias : Prototype := { arguments := [.reference {} false (.named ⟨"P", false⟩ .typedef (some short.site))] }
def plain : Prototype := { arguments := [.reference {} false (.pointer {} (int true))] }

def start : Collector := (Collector.start "/" [] {}).closeTemplates
def ofAlias : Moment := ⟨start, short, .wholeFile 0⟩
def first : Moment := ⟨ofAlias.after, function 2 byAlias, .wholeFile 0⟩
def second : Moment := ⟨first.after, function 3 plain, .wholeFile 0⟩

end Repeated

open Repeated in
theorem repeated_through_alias :
    second.Drops ∧ first.Registers ∧ first.functionName = "::f" ∧ List.Forall₂ TypeUse.Agrees first.uses second.uses := by
  have cut : (Collector.start "/" [] {}).history [unit byAlias plain] = [ofAlias, first] ++ second :: [] := rfl
  have drops : second.Drops := ⟨⟨rfl, Or.inl rfl, rfl⟩, ⟨_, rfl⟩, rfl⟩
  obtain ⟨m, hm, hregisters, -, hagrees⟩ := function_dropped_only_as_repeated cut drops
  have hfirst : m = first := by
    rcases List.mem_cons.mp hm with rfl | hm
    · -- the alias is no function
      rcases hregisters.1.kind with hk | hk <;> cases hk
    · exact List.mem_singleton.mp hm
  rw [hfirst] at hregisters hagrees
  exact ⟨drops, hregisters, rfl, hagrees⟩

/-! ## Functions that are not told apart

The text of a type says how many references there are and not of which kind, that something is `const`
and not what, and nothing of keywords inside template arguments. An ellipsis is no parameter. -/

namespace Repeated

def merged : List (Prototype × Prototype) :=
  [
   -- `f(int &)` and `f(int &&)`
   ({ arguments := [.reference {} false (int false)] }, { arguments := [.reference {} true (int false)] }),
   -- `f(const int *)` and `f(int *const)`
   ({ arguments := [.pointer {} (int true)] }, { arguments := [.pointer ⟨"", true⟩ (int false)] }),
   -- a pointer to a reference and a reference to a pointer
   ({ arguments := [.pointer {} (.reference {} false (int false))] },
    { arguments := [.reference {} false (.pointer {} (int false))] }),
   -- `f(int)` and `f(int, ...)`
   ({ arguments := [int false] }, { arguments := [int false], isVariadic := true }),
   -- `f(Box<const A>)` and `f(Box<A>)`
   ({ arguments := [named "Box<const A>"] }, { arguments := [named "Box<A>"] }),
   -- `f(Box<int>::A)` and `f(Box<char>::A)`
   ({ arguments := [named "Box<int>::A"] }, { arguments := [named "Box<char>::A"] }),
   -- a type whose name is that of a pointer
   ({ arguments := [named "A*"] }, { arguments := [.pointer {} (named "A")] }),
   -- a template parameter and a class of the same name
   ({ arguments := [.named ⟨"T", false⟩ .other (some ((Decl.wholeFile 0).within 4 .templateTypeParameter "T").site)] },
    { arguments := [.named ⟨"T", false⟩ .record (some ((Decl.wholeFile 0).within 5 .structDecl "T").site)] }),
   -- the alias and what it stands for
   ({ arguments := [named "P"] }, { arguments := [.pointer {} (int true)] })]

end Repeated

open Repeated in
theorem different_functions_merged :
    (merged.all fun pair => pair.1 != pair.2) = true ∧
      (merged.map fun pair => ((Collector.start "/" [] {}).collectAll [unit pair.1 pair.2]).db.functions.length) =
        List.replicate merged.length 1 := by
  decide +kernel

end SymbolIndex
