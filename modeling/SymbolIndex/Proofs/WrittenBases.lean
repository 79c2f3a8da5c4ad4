import SymbolIndex.Proofs.ScopeSearches

/-!
# Base classes as they are written

A base is written as a path of names, any of which may have template arguments, with a class key in front or none.
What is looked up ends at the first template bracket. So a known base is the class that was written if only the last
name of the path has arguments; behind an earlier bracket the rest of the path is lost.
-/

namespace SymbolIndex

def writtenBase (key : String) (parts : List PathPart) : String := key ++ Scope.written (parts.map PathPart.text)

def leadingNames : List PathPart → List String
  | [] => []
  | part :: parts => part.name :: if part.arguments.isSome then [] else leadingNames parts

theorem leadingNames_eq_map {parts : List PathPart} (h : ∀ part ∈ parts.dropLast, part.arguments = none) :
    leadingNames parts = parts.map PathPart.name := by
  induction parts with
  | nil => rfl
  | cons part parts ih =>
    cases parts with
    | nil => simp [leadingNames]
    | cons next parts =>
      have hnone := h part (by simp)
      rw [leadingNames, ih fun p hp => h p (by simp [hp])]
      simp [hnone]

theorem leadingNames_ne_nil {parts : List PathPart} (h : parts ≠ []) : leadingNames parts ≠ [] := by
  cases parts with
  | nil => exact absurd rfl h
  | cons part parts => simp [leadingNames]

theorem identifier_of_leadingNames {parts : List PathPart} : ∀ p ∈ leadingNames parts, Identifier p := by
  induction parts with
  | nil => simp [leadingNames]
  | cons part parts ih =>
    intro p hp
    rw [leadingNames] at hp
    rcases List.mem_cons.mp hp with rfl | hp
    · exact part.identifier
    · split at hp
      · simp at hp
      · exact ih p hp

/-! ## The text that is looked up -/

theorem Scope.written_cons_cons (part next : String) (parts : List String) :
    (written (part :: next :: parts)).toList = part.toList ++ ':' :: ':' :: (written (next :: parts)).toList := by
  simp [written]

theorem takeWhile_written (parts : List PathPart) :
    (Scope.written (parts.map PathPart.text)).toList.takeWhile (· != '<') =
      (Scope.written (leadingNames parts)).toList := by
  induction parts with
  | nil => rfl
  | cons part parts ih =>
    have hname : ∀ t : List Char,
        (part.name.toList ++ t).takeWhile (· != '<') = part.name.toList ++ t.takeWhile (· != '<') := by
      intro t
      apply List.takeWhile_append_of_pos
      intro c hc
      simpa using (part.identifier.plain c hc).2.1
    cases harguments : part.arguments with
    | some arguments =>
      have hcut : ∀ t : List Char, (part.text.toList ++ t).takeWhile (· != '<') = part.name.toList := by
        intro t
        obtain ⟨s, hs⟩ := List.head?_eq_some_iff.mp (part.bracketed arguments harguments)
        simp [PathPart.text, harguments, hname, hs]
      have hleading : leadingNames (part :: parts) = [part.name] := by simp [leadingNames, harguments]
      rw [hleading]
      cases parts with
      | nil => simpa [Scope.written] using hcut []
      | cons next parts =>
        rw [List.map_cons, List.map_cons, Scope.written_cons_cons, hcut]
        simp [Scope.written]
    | none =>
      have htext : part.text = part.name := by simp [PathPart.text, harguments]
      cases parts with
      | nil =>
        simp only [List.map_cons, List.map_nil, Scope.written, String.intercalate_singleton, htext, leadingNames,
          harguments, Option.isSome_none]
        simpa using hname []
      | cons next parts =>
        have hleading : leadingNames (part :: next :: parts) = part.name :: leadingNames (next :: parts) := by
          simp [leadingNames, harguments]
        obtain ⟨first, others, hcons⟩ := List.exists_cons_of_ne_nil (leadingNames_ne_nil (List.cons_ne_nil next parts))
        rw [List.map_cons, List.map_cons, Scope.written_cons_cons, htext, hname, hleading, hcons,
          Scope.written_cons_cons, ← hcons, ← ih]
        simp

theorem Scope.written_unblank {parts : List String} (h : ∀ p ∈ parts, Identifier p) :
    ∀ c ∈ (written parts).toList, Text.isBlank c = false := by
  induction parts with
  | nil => simp [written]
  | cons part parts ih =>
    have hpart : ∀ c ∈ part.toList, Text.isBlank c = false := fun c hc =>
      ((h part (List.mem_cons_self ..)).plain c hc).2.2.2
    have hrest := ih fun p hp => h p (List.mem_cons_of_mem _ hp)
    cases parts with
    | nil => simpa [written] using hpart
    | cons next parts =>
      intro c hc
      rw [written_cons_cons] at hc
      simp only [List.mem_append, List.mem_cons] at hc
      rcases hc with hc | rfl | rfl | hc
      · exact hpart c hc
      · rfl
      · rfl
      · exact hrest c hc

theorem dropLeading_of_unblank {word s : List Char} (hword : ' ' ∈ word) (hs : ∀ c ∈ s, Text.isBlank c = false) :
    dropLeading word s = none := by
  unfold dropLeading
  split
  · rename_i hleading
    have hblank := hs ' ' ((List.isPrefixOf_iff_prefix.mp hleading).subset hword)
    cases hblank
  · rfl

theorem withoutClassKey_append {key s : String} (hkey : key ∈ ["", "class ", "struct "])
    (hs : ∀ c ∈ s.toList, Text.isBlank c = false) : withoutClassKey (key ++ s) = s := by
  have htrim := Text.trim_of_unblank hs
  have hclass : dropLeading "class ".toList s.toList = none := dropLeading_of_unblank (by decide) hs
  have hstruct : dropLeading "struct ".toList s.toList = none := dropLeading_of_unblank (by decide) hs
  unfold withoutClassKey
  simp only [List.mem_cons, List.not_mem_nil, or_false] at hkey
  rcases hkey with rfl | rfl | rfl
  · simp only [String.empty_append, hclass, hstruct]
    simp [htrim]
  · simp [dropLeading, htrim]
  · simp [dropLeading, htrim]

theorem baseName_writtenBase {key : String} (hkey : key ∈ ["", "class ", "struct "]) (parts : List PathPart) :
    baseName (writtenBase key parts) = Scope.written (leadingNames parts) := by
  have hchars : ∀ c ∈ key.toList, (c != '<') = true := by
    simp only [List.mem_cons, List.not_mem_nil, or_false] at hkey
    rcases hkey with rfl | rfl | rfl <;> simp
  have hbefore : beforeBracket (writtenBase key parts) = key ++ Scope.written (leadingNames parts) := by
    rw [beforeBracket, writtenBase, String.toList_append, List.takeWhile_append_of_pos hchars, takeWhile_written]
    simp
  rw [baseName, hbefore]
  exact withoutClassKey_append hkey (Scope.written_unblank identifier_of_leadingNames)

/-! ## Known bases before and after an event -/

def Database.knownBases? (db : Database) (fullName : String) : Option (List String) :=
  (db.findClass? fullName).map (·.record.knownBases)

theorem Database.knownBases?_eq (db : Database) (fullName : String) :
    db.knownBases? fullName = (db.baseLists.find? (·.fullName == fullName)).map BaseLists.known := by
  rw [knownBases?, findClass?, baseLists, List.find?_map, Option.map_map]
  rfl

theorem find?_addBases (owner fullName : String) (bases known : List String) (all : List BaseLists) :
    ((addBases owner bases known all).find? (·.fullName == fullName)).map BaseLists.known =
      ((all.find? (·.fullName == fullName)).map BaseLists.known).map fun old =>
        if fullName = owner then old ++ known else old := by
  have hsame : ((fun l : BaseLists => l.fullName == fullName) ∘ fun l =>
      if l.fullName = owner then { l with bases := l.bases ++ bases, known := l.known ++ known } else l) =
        fun l => l.fullName == fullName := by
    funext l
    simp only [Function.comp_apply]
    split <;> rfl
  rw [addBases, List.find?_map, hsame, Option.map_map, Option.map_map]
  cases hfound : all.find? (·.fullName == fullName) with
  | none => rfl
  | some l =>
    have hname : l.fullName = fullName := by simpa using List.find?_some hfound
    by_cases howner : fullName = owner
    · simp [hname, howner]
    · simp [hname, howner]

namespace Moment

variable {m : Moment} {fullName base : String} {known : List String}

theorem knownBase_found (before : m.before.db.knownBases? fullName = some known)
    (after : m.after.db.knownBases? fullName = some (known ++ [base])) :
    m.decl.kind = .baseSpecifier ∧ ∃ db : Database, db.baseLists = m.before.db.baseLists ∧
      (db.classLike? (baseName m.decl.spelling) (Scope.parent fullName)).map ClassEntry.fullName = some base := by
  have hgrown : known ≠ known ++ [base] := by simp
  rcases m.before.visit_writes m.decl m.parent.site with hsame | hwrites
  · have hsame : m.after.db = m.before.db := hsame
    rw [hsame, before] at after
    exact absurd (Option.some.inj after) hgrown
  · have hoffered := Database.baseLists_of_outline (m.before.offered_alike m.decl m.parent.site).outline
    rw [Database.knownBases?_eq, ← hoffered] at before
    rw [Database.knownBases?_eq] at after
    have hbears : (m.before.offered m.decl m.parent.site).Bears m.decl m.parent.site m.after.db.baseLists :=
      hwrites.bears
    generalize m.after.db.baseLists = lists at hbears after
    cases hbears with
    | same =>
      rw [before] at after
      exact absurd (Option.some.inj after) hgrown
    | newClass other =>
      rw [List.find?_append, Option.map_or, before, Option.some_or] at after
      exact absurd (Option.some.inj after) hgrown
    | @knownBase owner found kind around search =>
      rw [find?_addBases, before, Option.map_some] at after
      by_cases howner : fullName = owner.fullName
      · rw [if_pos howner] at after
        refine ⟨kind, _, hoffered, ?_⟩
        rw [howner, search]
        simpa using after
      · rw [if_neg howner] at after
        exact absurd (Option.some.inj after) hgrown
    | unknownBase kind around missed =>
      rw [find?_addBases, before, Option.map_some, List.append_nil, ite_self] at after
      exact absurd (Option.some.inj after) hgrown

theorem SpecifiesBase.knownBase {owner : ClassEntry} (h : m.SpecifiesBase owner) {found : ClassEntry}
    (search : m.before.db.classLike? (baseName m.decl.spelling) (Scope.parent owner.fullName) = some found) :
    ∃ old, m.before.db.knownBases? owner.fullName = some old ∧
      m.after.db.knownBases? owner.fullName = some (old ++ [found.fullName]) := by
  have hclass : m.before.db.HasClass owner.fullName := ⟨owner, List.mem_of_find?_eq_some h.around, rfl⟩
  obtain ⟨entry, hentry⟩ := hclass.findClass?
  have hbefore : m.before.db.knownBases? owner.fullName = some entry.record.knownBases := by
    rw [Database.knownBases?, hentry, Option.map_some]
  refine ⟨_, hbefore, ?_⟩
  obtain ⟨-, hlists⟩ := m.before.closeTemplates.addBase_lists owner m.decl.spelling
  rw [← h.outcome_eq] at hlists
  have hdb : m.before.closeTemplates.db = m.before.db := rfl
  rw [hdb, search] at hlists
  rcases hlists with ⟨known, hknown, hgrown⟩ | ⟨hnone, -⟩
  · cases hknown
    rw [Database.knownBases?_eq, after, hgrown, find?_addBases, ← Database.knownBases?_eq, hbefore]
    simp
  · cases hnone

end Moment

/-- Let a base be written as a path, with any template arguments, of a class inside the scopes `around`. A class that
becomes known as a base is named by the path up to its first template arguments, seen from one of those scopes: by the
whole path, if just its last name has arguments. If one of the scopes has a class of these names, one becomes known. -/
theorem known_base_is_class_written {m : Moment} {around : List String} {name : String}
    (ids : ∀ p ∈ around ++ [name], Identifier p) {key : String} (hkey : key ∈ ["", "class ", "struct "])
    {parts : List PathPart} (hparts : parts ≠ []) (written : m.decl.spelling = writtenBase key parts) :
    let derived := Scope.join (around ++ [name])
    (∀ known base, m.before.db.knownBases? derived = some known →
        m.after.db.knownBases? derived = some (known ++ [base]) →
      ∃ q, q <+: around ∧ m.before.db.HasClass base ∧ base = Scope.join (q ++ leadingNames parts) ∧
        ((∀ part ∈ parts.dropLast, part.arguments = none) → base = Scope.join (q ++ parts.map PathPart.name))) ∧
    ∀ owner, m.SpecifiesBase owner → owner.fullName = derived →
      ∀ q, q <+: around → m.before.db.HasClass (Scope.join (q ++ leadingNames parts)) →
        ∃ known base, m.before.db.knownBases? derived = some known ∧
          m.after.db.knownBases? derived = some (known ++ [base]) := by
  intro derived
  have hscopes : Scope.split (Scope.parent derived) = around := Scope.split_parent_join ids
  have hsearch : ∀ db : Database, db.classLike? (baseName m.decl.spelling) (Scope.parent derived) =
      (Scope.outward around).findSome? fun q => db.findClass? (Scope.join (q ++ leadingNames parts)) := by
    intro db
    rw [written, baseName_writtenBase hkey, db.classLike?_written (leadingNames_ne_nil hparts) identifier_of_leadingNames,
      hscopes]
  constructor
  · intro known base hbefore hafter
    obtain ⟨-, db, hlists, hfound⟩ := Moment.knownBase_found hbefore hafter
    obtain ⟨e, he, rfl⟩ := Option.map_eq_some_iff.mp hfound
    have hclass : m.before.db.HasClass e.fullName := by
      rw [Database.hasClass_iff, ← hlists]
      exact Database.hasClass_iff.mp (Database.hasClass_of_classLike? he)
    rw [hsearch] at he
    obtain ⟨q, hq, hentry⟩ := List.exists_of_findSome?_eq_some he
    have hname := (Database.findClass?_some hentry).2
    refine ⟨q, (Scope.mem_outward q around).mp hq, hclass, hname, ?_⟩
    intro hplain
    rw [hname, leadingNames_eq_map hplain]
  · rintro owner hspec hderived q hq hclass
    have hfound : m.before.db.classLike? (baseName m.decl.spelling) (Scope.parent derived) ≠ none := by
      rw [hsearch]
      intro hnone
      rw [List.findSome?_eq_none_iff] at hnone
      exact Database.findClass?_eq_none_iff.mp (hnone q ((Scope.mem_outward q around).mpr hq)) hclass
    obtain ⟨found, hfound⟩ := Option.ne_none_iff_exists'.mp hfound
    rw [← hderived] at hfound ⊢
    obtain ⟨old, hbefore, hafter⟩ := hspec.knownBase hfound
    exact ⟨old, found.fullName, hbefore, hafter⟩

namespace PathWithArguments

def around : Decl := (Decl.wholeFile 0).within 1 .namespaceDecl "P"
def outer : Decl := { around.within 2 .classTemplate "Outer" with templated := .structDecl }
def nested : Decl := outer.within 3 .structDecl "Inner"
def derived : Decl := around.within 4 .structDecl "D"
def last : Decl := derived.within 5 .baseSpecifier "struct Outer<Q::X<int>>"
def middle : Decl := derived.within 6 .baseSpecifier "Outer<int>::Inner"

-- `namespace P { template <…> struct Outer { struct Inner; }; struct D : Outer<Q::X<int>>, Outer<int>::Inner {}; }`
def unit : SourceUnit where
  root := .wholeFile 0
  forest := .ofList [(around, .ofList [(outer, .ofList [(nested, .nil)]),
    (derived, .ofList [(last, .nil), (middle, .nil)])])]

def events : List Moment := (Collector.start "/" [] {}).history [unit]

def outerNested : PathPart := ⟨"Outer", some "<Q::X<int>>", by decide, by decide⟩
def outerInt : PathPart := ⟨"Outer", some "<int>", by decide, by decide⟩
def inner : PathPart := ⟨"Inner", none, by decide, PathPart.bracketed_none⟩

end PathWithArguments

open PathWithArguments in
theorem last_arguments_dropped :
    ∃ m ∈ events, m.decl.spelling = "struct Outer<Q::X<int>>" ∧ m.before.db.knownBases? "::P::D" = some [] ∧
      m.after.db.knownBases? "::P::D" = some ["::P::Outer"] ∧
      ∃ q, q <+: ["P"] ∧ "::P::Outer" = Scope.join (q ++ ["Outer"]) := by
  have hm : events.get ⟨4, by decide⟩ ∈ events := List.get_mem ..
  have hbefore : (events.get ⟨4, by decide⟩).before.db.knownBases? "::P::D" = some [] := by decide
  have hafter : (events.get ⟨4, by decide⟩).after.db.knownBases? "::P::D" = some ["::P::Outer"] := by decide
  have ids : ∀ p ∈ ["P"] ++ ["D"], Identifier p := by decide
  have hwritten : (events.get ⟨4, by decide⟩).decl.spelling = writtenBase "struct " [outerNested] := by
    decide
  obtain ⟨happended, -⟩ := known_base_is_class_written ids (by decide) (List.cons_ne_nil _ _) hwritten
  obtain ⟨q, hq, -, -, hwhole⟩ := happended [] "::P::Outer" hbefore hafter
  exact ⟨_, hm, rfl, hbefore, hafter, q, hq, hwhole (by simp)⟩

open PathWithArguments in
/-- The second base of `D` is written as `Inner` and known as `Outer`. -/
theorem path_lost_behind_arguments :
    writtenBase "" [outerInt, inner] = "Outer<int>::Inner" ∧
      ∃ m ∈ events, m.decl.spelling = "Outer<int>::Inner" ∧ m.before.db.HasClass "::P::Outer::Inner" ∧
        m.before.db.knownBases? "::P::D" = some ["::P::Outer"] ∧
        m.after.db.knownBases? "::P::D" = some ["::P::Outer", "::P::Outer"] ∧
        ¬ ∃ q, q <+: ["P"] ∧ "::P::Outer" = Scope.join (q ++ ["Outer", "Inner"]) := by
  refine ⟨by decide, events.get ⟨5, by decide⟩, List.get_mem .., rfl, by decide, by decide, by decide, ?_⟩
  rintro ⟨q, hq, hname⟩
  have hshort : q = [] ∨ q = ["P"] := by
    have := (Scope.mem_outward q ["P"]).mpr hq
    simpa [Scope.outward, or_comm] using this
  rcases hshort with rfl | rfl
  · exact absurd hname (by decide)
  · exact absurd hname (by decide)

end SymbolIndex
