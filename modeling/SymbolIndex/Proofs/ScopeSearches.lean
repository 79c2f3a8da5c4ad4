import Mathlib.Data.List.Find
import SymbolIndex.Proofs.KnownBases
import SymbolIndex.Proofs.Lists
import SymbolIndex.Proofs.ScopePath
import SymbolIndex.Proofs.StableResolution

/-!
# Two searches for a class

A class is found by a written name, from a scope outward among the full names of the classes; or by path and name, in
the candidate scopes of the type table. On identifiers both come down to one question, which full names are
registered. They ask it for the same names and differ in the order: the second tries the name as it stands first, the
first tries it last.
-/

namespace SymbolIndex

namespace Scope

/-- Components with `::` between them, as a name is written that is not rooted. -/
def written (parts : List String) : String := "::".intercalate parts

theorem join_append (parts parts' : List String) : join (parts ++ parts') = join parts ++ join parts' := by
  simp [join]

theorem join_written {parts : List String} (h : parts ≠ []) : "::" ++ written parts = join parts := by
  induction parts with
  | nil => exact absurd rfl h
  | cons part parts ih =>
    cases parts with
    | nil => simp [written, join_cons]
    | cons next parts =>
      rw [join_cons, ← ih (by simp)]
      simp [written, String.append_assoc]

theorem join_append_written (scope : List String) {parts : List String} (h : parts ≠ []) :
    join scope ++ "::" ++ written parts = join (scope ++ parts) := by
  rw [join_append, ← join_written h, String.append_assoc]

theorem written_unrooted {parts : List String} (h : parts ≠ []) (ids : ∀ p ∈ parts, Identifier p) :
    "::".toList.isPrefixOf (written parts).toList = false := by
  obtain ⟨part, rest, rfl⟩ := List.exists_cons_of_ne_nil h
  have hid := ids part (List.mem_cons_self ..)
  obtain ⟨c, s, hchars⟩ := List.exists_cons_of_ne_nil fun hnil => hid.nonempty (String.toList_eq_nil_iff.mp hnil)
  have hcolon : c ≠ ':' := (hid.plain c (hchars ▸ List.mem_cons_self ..)).1
  have hfirst : ∀ t : List Char, "::".toList.isPrefixOf (c :: t) = false := by
    intro t
    simp [List.isPrefixOf, hcolon.symm]
  cases rest with
  | nil => simp only [written, String.intercalate_singleton, hchars, hfirst]
  | cons next rest =>
    simp only [written, String.toList_intercalate, List.map_cons, List.intercalate_cons_cons, hchars, List.cons_append,
      hfirst]

theorem outward_eq_dropLast_append : ∀ path : List String, outward path = (outward path).dropLast ++ [[]]
  | [] => rfl
  | part :: path => by rw [outward, List.dropLast_concat]

end Scope

/-! ## Registering classes -/

structure Registration where
  record : Class
  place : Place
  access : Access

def Class.Spelled (c : Class) : Prop :=
  ∃ path : List String, (∀ p ∈ path ++ [c.name], Identifier p) ∧ c.fullName = Scope.join (path ++ [c.name])

namespace Database

def register (db : Database) (r : Registration) : Database := (db.addClass r.record r.place r.access).db

def ofClasses (rs : List Registration) : Database := rs.foldl register {}

/-- The type table lists the classes and nothing else, each under its path and name. -/
structure ClassesTabled (db : Database) : Prop where
  types : db.types = db.classes.map ClassEntry.tableEntry
  filed : ∀ t ∈ db.types, t.Filed

theorem ClassesTabled.register {db : Database} (h : db.ClassesTabled) {r : Registration} (spelled : r.record.Spelled) :
    (db.register r).ClassesTabled := by
  unfold Database.register
  rcases (db.addClass_tableEntries r.record r.place r.access).2 with ⟨htypes, hentries⟩ | ⟨htypes, hentries⟩
  · refine ⟨by rw [htypes, hentries, h.types], ?_⟩
    rw [htypes]
    exact h.filed
  · refine ⟨by rw [htypes, hentries, h.types], ?_⟩
    rw [htypes]
    intro t ht
    rcases List.mem_append.mp ht with ht | ht
    · exact h.filed t ht
    · obtain ⟨path, ids, hname⟩ := spelled
      rw [List.mem_singleton.mp ht, hname]
      exact declaredType_filed _ ids

theorem hasClass_register (db : Database) (r : Registration) (fullName : String) :
    (db.register r).HasClass fullName ↔ db.HasClass fullName ∨ r.record.fullName = fullName := by
  have hsome : ∀ d : Database, d.HasClass fullName ↔ (d.findClass? fullName).isSome := by
    intro d
    rw [← not_iff_not, ← findClass?_eq_none_iff, Option.not_isSome_iff_eq_none]
  rw [hsome, hsome, register, findClass?_addClass]
  by_cases hn : fullName = r.record.fullName
  · simp [hn]
  · simp [hn, Ne.symm hn]

theorem ofClasses_invariant {P : Database → Prop} {rs : List Registration}
    (hstep : ∀ db, ∀ r ∈ rs, P db → P (db.register r)) (hempty : P {}) : P (ofClasses rs) :=
  List.foldlRecOn rs register hempty fun db hdb r hr => hstep db r hr hdb

theorem classesTabled_ofClasses {rs : List Registration} (spelled : ∀ r ∈ rs, r.record.Spelled) :
    (ofClasses rs).ClassesTabled :=
  ofClasses_invariant (fun _ r hr h => h.register (spelled r hr)) ⟨rfl, by simp⟩

theorem hasClass_ofClasses (rs : List Registration) (fullName : String) :
    (ofClasses rs).HasClass fullName ↔ ∃ r ∈ rs, r.record.fullName = fullName := by
  have hgeneral : ∀ db : Database, (rs.foldl register db).HasClass fullName ↔
      db.HasClass fullName ∨ ∃ r ∈ rs, r.record.fullName = fullName := by
    induction rs with
    | nil => simp
    | cons r rs ih =>
      intro db
      rw [List.foldl_cons, ih, hasClass_register]
      simp [or_assoc]
  rw [ofClasses, hgeneral]
  simp [HasClass]

end Database

/-! ## Both searches by full names -/

section
variable {db : Database} {scope path : List String} {type : TypeRef}

theorem Database.classLike?_written (db : Database) {parts : List String} (h : parts ≠ [])
    (ids : ∀ p ∈ parts, Identifier p) (around : String) :
    db.classLike? (Scope.written parts) around =
      (Scope.outward (Scope.split around)).findSome? fun q => db.findClass? (Scope.join (q ++ parts)) := by
  rw [classLike?, Scope.written_unrooted h ids]
  simp only [Scope.join_append_written _ h, Bool.false_eq_true, if_false]

theorem Database.ClassesTabled.entryUnder? (h : db.ClassesTabled) (ids : ∀ p ∈ path ++ [type.name], Identifier p) :
    type.entryUnder? db.types path = (db.findClass? (Scope.join (path ++ [type.name]))).map ClassEntry.tableEntry := by
  rw [TypeRef.entryUnder?, h.types, List.find?_map, findClass?]
  congr 1
  apply List.find?_congr
  intro e he
  have hfiled : e.tableEntry.Filed := h.filed _ (h.types ▸ List.mem_map_of_mem he)
  have hname : e.fullName = Scope.join (e.tableEntry.scopePath ++ [e.tableEntry.name]) := hfiled.joined
  rw [Bool.eq_iff_iff]
  simp only [Function.comp_apply, Bool.and_eq_true, beq_iff_eq]
  constructor
  · rintro ⟨h1, h2⟩
    rw [hname, h1, h2]
  · intro hfull
    rw [hname] at hfull
    have hparts := Scope.join_injective hfiled.identifiers ids hfull
    simpa [and_comm] using List.append_inj' hparts rfl

theorem mem_candidateScopes {written q : List String} (h : q ∈ candidateScopes written scope) :
    ∃ p, p <+: scope ∧ q = p ++ written := by
  rcases List.mem_cons.mp h with rfl | h
  · exact ⟨[], List.nil_prefix, rfl⟩
  · obtain ⟨p, hp, rfl⟩ := List.mem_map.mp h
    exact ⟨p, (Scope.mem_outward p scope).mp (List.dropLast_subset _ hp), rfl⟩

theorem Database.ClassesTabled.findIn? (h : db.ClassesTabled) (ids : ∀ p ∈ type.scopePath ++ [type.name], Identifier p)
    (hscope : ∀ p ∈ scope, Identifier p) :
    type.findIn? db.types scope =
      ((candidateScopes type.scopePath scope).findSome? fun q =>
        db.findClass? (Scope.join (q ++ [type.name]))).map ClassEntry.tableEntry := by
  rw [TypeRef.findIn?_eq, List.map_findSome?]
  apply findSome?_congr
  intro q hq
  obtain ⟨p, hinside, rfl⟩ := mem_candidateScopes hq
  apply h.entryUnder?
  intro part hpart
  rw [List.append_assoc] at hpart
  rcases List.mem_append.mp hpart with hpart | hpart
  · exact hscope part (hinside.subset hpart)
  · exact ids part hpart

end

/-- Both searches go through the parts of the scope, one with the global scope last and one with it first. -/
theorem searches_eq (db : Database) (h : db.ClassesTabled) {type : TypeRef} {scope : List String}
    (ids : ∀ p ∈ type.scopePath ++ [type.name], Identifier p) (hscope : ∀ p ∈ scope, Identifier p) :
    ∃ deeper : Option ClassEntry,
      db.classLike? (Scope.written (type.scopePath ++ [type.name])) (Scope.join scope) =
        deeper.or (db.findClass? (Scope.join (type.scopePath ++ [type.name]))) ∧
      type.findIn? db.types scope =
        ((db.findClass? (Scope.join (type.scopePath ++ [type.name]))).or deeper).map ClassEntry.tableEntry := by
  refine ⟨(Scope.outward scope).dropLast.findSome? fun q =>
    db.findClass? (Scope.join (q ++ (type.scopePath ++ [type.name]))), ?_, ?_⟩
  · rw [db.classLike?_written (by simp) ids, Scope.split_join hscope, Scope.outward_eq_dropLast_append,
      List.findSome?_append]
    simp
  · rw [h.findIn? ids hscope, candidateScopes, List.findSome?_cons, List.findSome?_map]
    cases db.findClass? (Scope.join (type.scopePath ++ [type.name])) with
    | some e => rfl
    | none => simp [Function.comp_def]

/-! ## The searches compared -/

def Registered (rs : List Registration) (parts : List String) : Prop :=
  ∃ r ∈ rs, r.record.fullName = Scope.join parts

instance (rs : List Registration) (parts : List String) : Decidable (Registered rs parts) :=
  inferInstanceAs (Decidable (∃ r ∈ rs, _))

/-- The longest part of a scope from within which components are those of a class. -/
structure Deepest (rs : List Registration) (scope parts q : List String) : Prop where
  around : q <+: scope
  registered : Registered rs (q ++ parts)
  longest : ∀ p, p <+: scope → Registered rs (p ++ parts) → p.length ≤ q.length

theorem classLike?_of_deepest {rs : List Registration} {scope parts q : List String} (h : parts ≠ [])
    (ids : ∀ p ∈ parts, Identifier p) (hscope : ∀ p ∈ scope, Identifier p) (hq : Deepest rs scope parts q) :
    ((Database.ofClasses rs).classLike? (Scope.written parts) (Scope.join scope)).map ClassEntry.fullName =
      some (Scope.join (q ++ parts)) := by
  have hnames : ∀ k, Scope.nameIn scope k (Scope.written parts) = Scope.join (scope.take k ++ parts) :=
    fun k => Scope.join_append_written _ h
  have hclass : ∀ k, (Database.ofClasses rs).HasClass (Scope.nameIn scope k (Scope.written parts)) ↔
      Registered rs (scope.take k ++ parts) := by
    intro k
    rw [hnames, Database.hasClass_ofClasses]
    rfl
  have htake : scope.take q.length = q := (List.prefix_iff_eq_take.mp hq.around).symm
  have hrooted := Scope.written_unrooted h ids
  cases hfound : (Database.ofClasses rs).classLike? (Scope.written parts) (Scope.join scope) with
  | none =>
    have hnone := Database.classLike?_none hrooted hfound
    rw [Scope.split_join hscope] at hnone
    have := hnone q.length hq.around.length_le
    rw [hclass, htake] at this
    exact absurd hq.registered this
  | some e =>
    obtain ⟨k, hinner, hname⟩ := Database.classLike?_some hrooted hfound
    rw [Scope.split_join hscope] at hinner hname
    have hupper : k ≤ q.length := by
      have := hq.longest _ (List.take_prefix k scope) ((hclass k).mp hinner.found)
      rwa [List.length_take_of_le hinner.bound] at this
    have hlower : ¬ k < q.length := by
      intro hlt
      apply hinner.deepest q.length hlt hq.around.length_le
      rw [hclass, htake]
      exact hq.registered
    obtain rfl : k = q.length := by omega
    rw [Option.map_some, hname, hnames, htake]

theorem classLike?_of_unregistered {rs : List Registration} {scope parts : List String} (h : parts ≠ [])
    (ids : ∀ p ∈ parts, Identifier p) (hscope : ∀ p ∈ scope, Identifier p)
    (hnone : ∀ q, q <+: scope → ¬ Registered rs (q ++ parts)) :
    (Database.ofClasses rs).classLike? (Scope.written parts) (Scope.join scope) = none := by
  rw [Database.classLike?_written _ h ids, Scope.split_join hscope, List.findSome?_eq_none_iff]
  intro q hq
  rw [Database.findClass?_eq_none_iff, Database.hasClass_ofClasses]
  exact hnone q ((Scope.mem_outward q scope).mp hq)

/-- Let classes with identifiers for names be registered in any order. The search outward for a written name finds the
class in the innermost scope that has one; the search by path and name finds one if and only if the other does, the
class of just that path and name if there is one, and otherwise the same class. -/
theorem scope_searches_agree {rs : List Registration} (spelled : ∀ r ∈ rs, r.record.Spelled) (type : TypeRef)
    (ids : ∀ p ∈ type.scopePath ++ [type.name], Identifier p) {scope : List String}
    (hscope : ∀ p ∈ scope, Identifier p) :
    let parts := type.scopePath ++ [type.name]
    let found := (Database.ofClasses rs).classLike? (Scope.written parts) (Scope.join scope)
    let known := type.findIn? (Database.ofClasses rs).types scope
    (∀ q, Deepest rs scope parts q → found.map ClassEntry.fullName = some (Scope.join (q ++ parts))) ∧
    ((∀ q, q <+: scope → ¬ Registered rs (q ++ parts)) → found = none) ∧
    (known = none ↔ found = none) ∧
    (Registered rs parts → known.map TypeRef.fullName = some (Scope.join parts)) ∧
    (¬ Registered rs parts → known.map TypeRef.fullName = found.map ClassEntry.fullName) := by
  intro parts found known
  have hparts : parts ≠ [] := by simp [parts]
  obtain ⟨deeper, hfound, hknown⟩ := searches_eq _ (Database.classesTabled_ofClasses spelled) ids hscope
  change found = deeper.or ((Database.ofClasses rs).findClass? (Scope.join parts)) at hfound
  change known = (((Database.ofClasses rs).findClass? (Scope.join parts)).or deeper).map ClassEntry.tableEntry at hknown
  have hlisted : ∀ e : ClassEntry, e.tableEntry.fullName = e.fullName := fun _ => rfl
  refine ⟨fun q => classLike?_of_deepest hparts ids hscope, classLike?_of_unregistered hparts ids hscope, ?_, ?_, ?_⟩
  · rw [hknown, hfound, Option.map_eq_none_iff, Option.or_eq_none_iff, Option.or_eq_none_iff, and_comm]
  · intro hregistered
    have hclass := (Database.hasClass_ofClasses rs (Scope.join parts)).mpr hregistered
    obtain ⟨e, he⟩ := hclass.findClass?
    rw [hknown, he, Option.some_or, Option.map_some, Option.map_some, hlisted, (Database.findClass?_some he).2]
  · intro hunregistered
    have hnone : (Database.ofClasses rs).findClass? (Scope.join parts) = none := by
      rw [Database.findClass?_eq_none_iff, Database.hasClass_ofClasses]
      exact hunregistered
    rw [hknown, hfound, hnone, Option.none_or, Option.or_none, Option.map_map]
    rfl

namespace NestedPaths

def declared (path : List String) (name : String) : Registration where
  record := { name := name, fullName := Scope.join (path ++ [name]) }
  place := ⟨0, none, .classDecl, name⟩
  access := .everyone

-- `namespace P { class C; } namespace A { class D; namespace P { class C; } } namespace P { class C; }`
def classes : List Registration := [declared ["P"] "C", declared ["A"] "D", declared ["A", "P"] "C", declared ["P"] "C"]

def db : Database := .ofClasses classes

end NestedPaths

open NestedPaths in
/-- Inside `A::B` the name `P::C` is that of the inner class for one search and of the outer class for the other; on `D`
they agree. -/
theorem qualified_name_found_inside :
    (db.classLike? "P::C" "::A::B").map ClassEntry.fullName = some "::A::P::C" ∧
      (({ name := "C", scopePath := ["P"] } : TypeRef).findIn? db.types ["A", "B"]).map TypeRef.fullName =
        some "::P::C" ∧
      (({ name := "D" } : TypeRef).findIn? db.types ["A", "B"]).map TypeRef.fullName =
        (db.classLike? "D" "::A::B").map ClassEntry.fullName := by
  have spelled : ∀ r ∈ classes, r.record.Spelled := by
    have hdeclared : ∀ path name, (∀ p ∈ path ++ [name], Identifier p) → (declared path name).record.Spelled :=
      fun path name ids => ⟨path, ids, rfl⟩
    simp only [classes, List.forall_mem_cons]
    exact ⟨hdeclared _ _ (by decide), hdeclared _ _ (by decide), hdeclared _ _ (by decide), hdeclared _ _ (by decide),
      by simp⟩
  have hscope : ∀ p ∈ ["A", "B"], Identifier p := by decide
  have hdeepest : Deepest classes ["A", "B"] ["P", "C"] ["A"] := by
    refine ⟨by decide, by decide, ?_⟩
    intro p hp hregistered
    by_contra hlong
    have hwhole : p = ["A", "B"] := hp.eq_of_length (Nat.le_antisymm hp.length_le (Nat.not_le.mp hlong))
    subst hwhole
    exact absurd hregistered (by decide)
  obtain ⟨hfound, -, -, hown, -⟩ :=
    scope_searches_agree spelled { name := "C", scopePath := ["P"] } (by decide) hscope
  obtain ⟨-, -, -, -, hsame⟩ := scope_searches_agree spelled { name := "D" } (by decide) hscope
  exact ⟨hfound ["A"] hdeepest, hown (by decide), hsame (by decide)⟩

end SymbolIndex
