import SymbolIndex.Proofs.AppendOnly
import SymbolIndex.Proofs.Lists

/-!
# Resolution while the type table grows

A look-up tries its candidate scopes in order and takes the first entry of the table under the first of them that
has one. Entries added at the end of the table change the outcome exactly if one of them stands under a candidate
that comes earlier. Since a run only appends to the table, a type that is found under its own path stays what it is.
-/

namespace SymbolIndex

namespace TypeRef

def entryUnder? (type : TypeRef) (table : List TypeRef) (path : List String) : Option TypeRef :=
  table.find? fun known => known.name == type.name && known.scopePath == path

/-- An added entry comes before the one that was found: it has the name and an earlier candidate for its path. -/
def Preempts (type : TypeRef) (scope : List String) (added known : TypeRef) : Prop :=
  added.name = type.name ∧
    (candidateScopes type.scopePath scope).idxOf added.scopePath <
      (candidateScopes type.scopePath scope).idxOf known.scopePath

instance (type : TypeRef) (scope : List String) (added known : TypeRef) : Decidable (type.Preempts scope added known) :=
  inferInstanceAs (Decidable (_ ∧ _))

variable {type known : TypeRef} {table added : List TypeRef} {path scope : List String}

theorem findIn?_eq (type : TypeRef) (table : List TypeRef) (scope : List String) :
    type.findIn? table scope = (candidateScopes type.scopePath scope).findSome? (type.entryUnder? table) := rfl

theorem entryUnder?_some (h : type.entryUnder? table path = some known) :
    known ∈ table ∧ known.name = type.name ∧ known.scopePath = path := by
  refine ⟨List.mem_of_find?_eq_some h, ?_⟩
  simpa using List.find?_some h

theorem entryUnder?_eq_none :
    type.entryUnder? table path = none ↔ ∀ entry ∈ table, ¬ (entry.name = type.name ∧ entry.scopePath = path) := by
  simp [entryUnder?]

theorem entryUnder?_append (type : TypeRef) (table added : List TypeRef) (path : List String) :
    type.entryUnder? (table ++ added) path = (type.entryUnder? table path).or (type.entryUnder? added path) :=
  List.find?_append

theorem findIn?_some (h : type.findIn? table scope = some known) :
    ∃ front back, candidateScopes type.scopePath scope = front ++ known.scopePath :: back ∧
      known.scopePath ∉ front ∧ type.entryUnder? table known.scopePath = some known ∧
      ∀ path ∈ front, type.entryUnder? table path = none := by
  rw [findIn?_eq, List.findSome?_eq_some_iff] at h
  obtain ⟨front, path, back, hcandidates, hfound, hnone⟩ := h
  obtain rfl := (entryUnder?_some hfound).2.2
  refine ⟨front, back, hcandidates, ?_, hfound, hnone⟩
  intro hmem
  rw [hnone _ hmem] at hfound
  cases hfound

theorem findIn?_append_of_kept (h : type.findIn? table scope = some known)
    (hkept : ∀ entry ∈ added, ¬ type.Preempts scope entry known) :
    type.findIn? (table ++ added) scope = some known := by
  obtain ⟨front, back, hcandidates, hnotin, hfound, hnone⟩ := findIn?_some h
  rw [findIn?_eq, List.findSome?_eq_some_iff]
  refine ⟨front, known.scopePath, back, hcandidates, ?_, ?_⟩
  · rw [entryUnder?_append, hfound, Option.some_or]
  · intro path hpath
    rw [entryUnder?_append, hnone path hpath, Option.none_or, entryUnder?_eq_none]
    rintro entry hentry ⟨hname, rfl⟩
    apply hkept entry hentry
    refine ⟨hname, ?_⟩
    rw [hcandidates, idxOf_lt_idxOf_iff hnotin]
    exact hpath

theorem findIn?_append_of_preempted (h : type.findIn? table scope = some known) {entry : TypeRef}
    (hentry : entry ∈ added) (hpreempts : type.Preempts scope entry known) :
    ∃ found, type.findIn? (table ++ added) scope = some found ∧ found.scopePath ≠ known.scopePath := by
  obtain ⟨front, back, hcandidates, hnotin, -, -⟩ := findIn?_some h
  obtain ⟨hname, hbefore⟩ := hpreempts
  rw [hcandidates, idxOf_lt_idxOf_iff hnotin] at hbefore
  have hearly : (front.findSome? (type.entryUnder? (table ++ added))).isSome := by
    rw [List.isSome_findSome?, List.any_eq_true]
    refine ⟨entry.scopePath, hbefore, ?_⟩
    rw [entryUnder?_append, Option.isSome_or, Bool.or_eq_true]
    right
    rw [Option.isSome_iff_ne_none, Ne, entryUnder?_eq_none]
    exact fun hnone => hnone entry hentry ⟨hname, rfl⟩
  obtain ⟨found, hfound⟩ := Option.isSome_iff_exists.mp hearly
  refine ⟨found, ?_, ?_⟩
  · rw [findIn?_eq, hcandidates, List.findSome?_append, hfound, Option.some_or]
  · obtain ⟨path, hpath, hunder⟩ := List.exists_of_findSome?_eq_some hfound
    rw [(entryUnder?_some hunder).2.2]
    exact fun heq => hnotin (heq ▸ hpath)

theorem resolveIn_of_found (hkind : type.kind ≠ .builtin) (h : type.findIn? table scope = some known) :
    type.resolveIn table scope = (type.refineBy known).addLayer known := by
  rw [resolveIn, if_neg hkind, h]

theorem resolveIn_append_iff (hkind : type.kind ≠ .builtin) (h : type.findIn? table scope = some known) :
    type.resolveIn (table ++ added) scope = type.resolveIn table scope ↔
      ∀ entry ∈ added, ¬ type.Preempts scope entry known := by
  rw [resolveIn_of_found hkind h]
  constructor
  · intro hsame entry hentry hpreempts
    obtain ⟨found, hfound, hpath⟩ := findIn?_append_of_preempted h hentry hpreempts
    rw [resolveIn_of_found hkind hfound] at hsame
    -- a resolved type keeps the path of the entry it was found by
    have hpaths := congrArg scopePath hsame
    exact hpath hpaths
  · intro hkept
    exact resolveIn_of_found hkind (findIn?_append_of_kept h hkept)

theorem findIn?_own {entry : TypeRef} (hentry : entry ∈ table) (hname : entry.name = type.name)
    (hpath : entry.scopePath = type.scopePath) (scope : List String) :
    ∃ known, type.findIn? table scope = some known ∧ known.scopePath = type.scopePath := by
  have hsome : type.entryUnder? table type.scopePath ≠ none := by
    rw [Ne, entryUnder?_eq_none]
    exact fun hnone => hnone entry hentry ⟨hname, hpath⟩
  obtain ⟨known, hknown⟩ := Option.ne_none_iff_exists'.mp hsome
  refine ⟨known, ?_, (entryUnder?_some hknown).2.2⟩
  rw [findIn?_eq, candidateScopes, List.findSome?_cons, hknown]

theorem not_preempts_own (hpath : known.scopePath = type.scopePath) (scope : List String) (entry : TypeRef) :
    ¬ type.Preempts scope entry known := by
  rintro ⟨-, hbefore⟩
  rw [hpath, candidateScopes, List.idxOf_cons_self] at hbefore
  exact Nat.not_lt_zero _ hbefore

/-- Builtin types, and those with an entry of the table under their own path and name. -/
def Anchored (type : TypeRef) (table : List TypeRef) : Prop :=
  type.kind = .builtin ∨ ∃ known ∈ table, known.name = type.name ∧ known.scopePath = type.scopePath

instance (type : TypeRef) (table : List TypeRef) : Decidable (type.Anchored table) :=
  inferInstanceAs (Decidable (_ ∨ ∃ known ∈ table, _))

theorem Anchored.resolveIn_append (h : type.Anchored table) (added : List TypeRef) (scope : List String) :
    type.resolveIn (table ++ added) scope = type.resolveIn table scope := by
  by_cases hkind : type.kind = .builtin
  · rw [resolveIn, resolveIn, if_pos hkind, if_pos hkind]
  · obtain hbuiltin | ⟨entry, hentry, hname, hpath⟩ := h
    · exact absurd hbuiltin hkind
    obtain ⟨known, hfound, hown⟩ := findIn?_own hentry hname hpath scope
    rw [resolveIn_append_iff hkind hfound]
    exact fun entry _ => not_preempts_own hown scope entry

end TypeRef

theorem Collector.types_of_states (c : Collector) (units : List SourceUnit) :
    (c.states units).Pairwise fun earlier later => earlier.db.types <+: later.db.types :=
  c.states_pairwise (R := fun db db' => db.types <+: db'.types) (fun h h' => h.trans h')
    (fun m => (m.before.visit_precedes m.decl m.parent.site).types) units

/-- Let a type be found in a table. With more entries behind it resolves to the same if and only if none of them comes
before the one found. In a run, builtin types and those found under their own path and name resolve in every later
state as they did before. -/
theorem resolution_stable_while_table_grows (source : TypeSource) (scope : List String) :
    (∀ (table added : List TypeRef) (known : TypeRef), source.load.kind ≠ .builtin →
      source.load.findIn? table scope = some known →
        (source.resolve (table ++ added) scope = source.resolve table scope ↔
          ∀ entry ∈ added, ¬ source.load.Preempts scope entry known)) ∧
    ∀ (c : Collector) (units : List SourceUnit), (c.states units).Pairwise fun earlier later =>
      source.load.Anchored earlier.db.types →
        source.resolve later.db.types scope = source.resolve earlier.db.types scope := by
  constructor
  · intro table added known hkind hfound
    exact TypeRef.resolveIn_append_iff hkind hfound
  · intro c units
    refine (c.types_of_states units).imp ?_
    rintro earlier later ⟨added, hadded⟩ hanchored
    rw [← hadded]
    exact hanchored.resolveIn_append added scope

namespace GrowingTable

def use : TypeSource := .written "const S *"
def table : List TypeRef := [Database.declaredType "S" "::A::S" .classType]
def beside : List TypeRef :=
  [Database.declaredType "T" "::A::B::T" .classType, Database.declaredType "S" "::C::S" .classType]
def within : List TypeRef := [Database.declaredType "S" "::A::B::S" .classType]

def around : Decl := (Decl.wholeFile 0).within 1 .namespaceDecl "A"
def first : Decl := around.within 2 .structDecl "S"
def nested : Decl := around.within 3 .namespaceDecl "B"
def second : Decl := nested.within 4 .structDecl "S"

-- `namespace A { struct S; namespace B { struct S; } }`
def unit : SourceUnit where
  root := .wholeFile 0
  forest := .ofList [(around, .ofList [(first, .nil), (nested, .ofList [(second, .nil)])])]

def states : List Collector := (Collector.start "/" [] {}).states [unit]

def direct : TypeSource := .reported (.named {} .record (some first.site))

end GrowingTable

open GrowingTable in
theorem written_name_taken_over :
    use.resolve (table ++ beside) ["A", "B"] = use.resolve table ["A", "B"] ∧
      use.resolve (table ++ within) ["A", "B"] ≠ use.resolve table ["A", "B"] ∧
      ∃ earlier later, [earlier, later].Sublist states ∧ later.db.types.length = 2 ∧
        direct.resolve later.db.types ["A", "B"] = direct.resolve earlier.db.types ["A", "B"] := by
  obtain ⟨hgrows, -⟩ := resolution_stable_while_table_grows use ["A", "B"]
  obtain ⟨-, hrun⟩ := resolution_stable_while_table_grows direct ["A", "B"]
  have hkind : use.load.kind ≠ .builtin := by decide
  refine ⟨(hgrows table beside _ hkind rfl).mpr (by decide), ?_, ?_⟩
  · intro hsame
    exact absurd ((hgrows table within _ hkind rfl).mp hsame) (by decide)
  · have hlater : [states.get ⟨2, by decide⟩, states.get ⟨4, by decide⟩].Sublist states := by decide
    have hstable := List.pairwise_iff_forall_sublist.mp (hrun (Collector.start "/" [] {}) [unit]) hlater
    exact ⟨_, _, hlater, rfl, hstable (by decide)⟩

end SymbolIndex
