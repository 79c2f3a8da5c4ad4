import SymbolIndex.Proofs.History
import SymbolIndex.Proofs.Layers
import SymbolIndex.Proofs.Ledger
import SymbolIndex.Proofs.Lists

/-!
# Guessed entries of the type table

An alias whose target is not found takes the target's label for its full name and is flagged. An alias
of such an alias takes the label too, but not the flag. So an entry without the flag names a builtin
type, a class or an enum, or has its name from a flagged entry before it.
-/

namespace SymbolIndex

/-- A full name that stands for something: a builtin type, a class or an enum. -/
def Database.Denotes (db : Database) (name : String) : Prop :=
  name ∈ Builtin.names ∨ (∃ e ∈ db.classes, e.fullName = name) ∨ ∃ e ∈ db.enums, e.fullName = name

def Ledger.denoted (l : Ledger) : List String := Builtin.names ++ (l.classes ++ l.enums).map TypeRef.fullName

def Ledger.Sourced (l : Ledger) : Prop :=
  ∀ older e newer, l.types = older ++ e :: newer → e.bestEffort = false →
    e.fullName ∈ l.denoted ∨ ∃ guess ∈ older, guess.bestEffort = true ∧ guess.fullName = e.fullName

/-- A new entry needs a source of its own; the older ones keep theirs. -/
theorem Ledger.Sourced.append {l l' : Ledger} (h : l.Sourced) {entry : TypeRef} (types : l'.types = l.types ++ [entry])
    (denoted : l.denoted ⊆ l'.denoted)
    (source : entry.bestEffort = false → entry.fullName ∈ l'.denoted ∨
      ∃ guess ∈ l.types, guess.bestEffort = true ∧ guess.fullName = entry.fullName) : l'.Sourced := by
  intro older e newer hcut hf
  rw [types] at hcut
  rcases append_eq_append_cons hcut with ⟨newer', hold, -⟩ | ⟨front, rfl, hlast⟩
  · exact (h older e newer' hold hf).imp_left (denoted ·)
  · obtain ⟨rfl, hentry⟩ : front = [] ∧ e :: newer = [entry] := by simpa using List.singleton_eq_append_iff.mp hlast
    obtain ⟨rfl, -⟩ := List.cons.inj hentry
    simpa using source hf

namespace Collector

variable {c : Collector} {decl : Decl} {parent : Site} {l : Ledger}

theorem aliasIn_sourced (hs : c.db.ledger.Sourced) (scope : String) (hf : (c.aliasIn decl scope).bestEffort = false) :
    (c.aliasIn decl scope).fullName ∈ c.db.ledger.denoted ∨
      ∃ guess ∈ c.db.types, guess.bestEffort = true ∧ guess.fullName = (c.aliasIn decl scope).fullName := by
  rcases c.aliasEntry_cases decl.spelling (Scope.split scope) (.ofTree decl.underlying) rfl with
    ⟨hk, hname, -⟩ | ⟨known, hm, hname, -⟩ | ⟨-, hflag⟩
  · obtain ⟨type, htype⟩ := TypeTree.core_builtin hk
    left
    rw [aliasIn, hname, show (TypeRef.ofTree decl.underlying).fullName = type.name from htype]
    exact List.mem_append_left _ type.mem_names
  · rw [aliasIn, hname]
    by_cases hknown : known.bestEffort = true
    · exact Or.inr ⟨known, hm, hknown, rfl⟩
    · obtain ⟨older, newer, hcut⟩ := List.append_of_mem hm
      rcases hs older known newer hcut (by simpa using hknown) with h | ⟨guess, hg, hguess⟩
      · exact Or.inl h
      · refine Or.inr ⟨guess, ?_, hguess⟩
        rw [hcut]
        exact List.mem_append_left _ hg
  · rw [aliasIn, hflag] at hf
    cases hf

theorem Tallies.denoted (h : c.Tallies decl parent l) : c.db.ledger.denoted ⊆ l.denoted := by
  intro name hn
  cases h with
  | same => exact hn
  | ofNamespace kind named name_eq fresh => exact hn
  | ofClass kind named context entry_eq fresh =>
    simp only [Ledger.denoted, List.map_append, List.mem_append] at hn ⊢
    tauto
  | ofEnum kind named entry_eq fresh =>
    simp only [Ledger.denoted, List.map_append, List.mem_append] at hn ⊢
    tauto
  | ofAlias kind context => exact hn

theorem Tallies.sourced (h : c.Tallies decl parent l) (hs : c.db.ledger.Sourced) : l.Sourced := by
  have hkept := h.denoted
  cases h with
  | same => exact hs
  | ofNamespace kind named name_eq fresh => exact hs
  | ofClass kind named context entry_eq fresh =>
    exact hs.append rfl hkept fun _ => Or.inl (by simp [Ledger.denoted])
  | ofEnum kind named entry_eq fresh =>
    exact hs.append rfl hkept fun _ => Or.inl (by simp [Ledger.denoted])
  | @ofAlias kind scope context =>
    exact hs.append rfl hkept fun hf => aliasIn_sourced hs scope hf

end Collector

/-- In every state of a run, an entry without the flag names a builtin type, a class or an enum, or takes
its name from a flagged entry before it. -/
theorem unflagged_name_denotes_or_is_passed_on {base : String} {roots : List String} {units : List SourceUnit}
    {state : Collector} (reached : state ∈ (Collector.start base roots {}).states units)
    {older newer : List TypeRef} {e : TypeRef} (cut : state.db.types = older ++ e :: newer)
    (unflagged : e.bestEffort = false) :
    state.db.Denotes e.fullName ∨ ∃ guess ∈ older, guess.bestEffort = true ∧ guess.fullName = e.fullName := by
  have hempty : (Collector.start base roots {}).db.ledger.Sourced := by
    intro older e newer hcut
    simp [Database.ledger, Collector.start] at hcut
  have hsourced : state.db.ledger.Sourced :=
    Collector.states_invariant (P := fun db => db.ledger.Sourced)
      (fun _ _ _ _ h => Collector.ledger_keeps (fun _ _ ht hs => ht.sourced hs) h) hempty state reached
  refine (hsourced older e newer cut unflagged).imp_left ?_
  intro hname
  simp only [Ledger.denoted, Database.ledger, List.map_append, List.map_map, List.mem_append, List.mem_map] at hname
  exact hname

namespace PassedOn

def called (serial : Nat) (name target : String) : Decl :=
  { (Decl.wholeFile 0).within serial .typedefDecl name with underlying := .named ⟨target, false⟩ .typedef none }

def whole : Decl := (Decl.wholeFile 0).within 1 .structDecl "S"

-- `struct S; typedef S T; typedef U A; typedef A B;`
def unit : SourceUnit where
  root := .wholeFile 0
  forest := .ofList [(whole, .nil), (called 2 "T" "S", .nil), (called 3 "A" "U", .nil), (called 4 "B" "A", .nil)]

def state : Collector := ((Collector.start "/" [] {}).states [unit]).getLast (List.cons_ne_nil _ _)

def entry (name raw : String) (flagged : Bool) : TypeRef :=
  { rawName := name, name := name, fullName := raw, kind := .aliasType, bestEffort := flagged }

end PassedOn

open PassedOn in
theorem alias_of_guess_is_passed_on :
    state.db.Denotes "::U" ∨
      ∃ guess ∈ [Database.declaredType "S" "::S" .structType, entry "T" "::S" false, entry "A" "::U" true],
        guess.bestEffort = true ∧ guess.fullName = "::U" := by
  have reached : state ∈ (Collector.start "/" [] {}).states [unit] := List.getLast_mem _
  have cut : state.db.types = [Database.declaredType "S" "::S" .structType, entry "T" "::S" false,
      entry "A" "::U" true] ++ entry "B" "::U" false :: [] := rfl
  exact unflagged_name_denotes_or_is_passed_on reached cut rfl

-- the second alias has the guessed label and no flag
open PassedOn in
theorem guess_without_flag :
    entry "B" "::U" false ∈ state.db.types ∧ "::U" ∉ Builtin.names ∧
      state.db.classes.map ClassEntry.fullName = ["::S"] ∧ state.db.enums = [] := by
  have htypes : state.db.types.getLast? = some (entry "B" "::U" false) := rfl
  exact ⟨List.mem_of_getLast? htypes, by decide, rfl, rfl⟩

end SymbolIndex
