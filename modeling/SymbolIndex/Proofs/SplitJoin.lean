import SymbolIndex.Collector.Visit

/-!
# Splitting a joined name

Full names are built by joining and read by splitting. A component is joined as it is, so it must show
no separator of its own: each `::` in it stands at a depth other than zero, counted from its start. All
components but the last also have to leave the depth at zero and must not end in a colon, which would
move the separator behind them. Then splitting gives the components back. Identifiers are such
components, so a full name made of them determines its components and the scope it stands in.
-/

namespace SymbolIndex

/-- A name as a compiler accepts it: not empty, without colons, angle brackets and blanks, and not one
of the names in parentheses that stand for none. -/
structure Identifier (name : String) : Prop where
  named : isUnnamed name = false
  plain : ∀ c ∈ name.toList, c ≠ ':' ∧ c ≠ '<' ∧ c ≠ '>' ∧ Text.isBlank c = false

theorem identifier_iff (name : String) :
    (isUnnamed name = false ∧ name.toList.all (fun c => c != ':' && c != '<' && c != '>' && !Text.isBlank c) = true) ↔
      Identifier name := by
  simp only [List.all_eq_true, Bool.and_eq_true, bne_iff_ne, Bool.not_eq_true', and_assoc]
  exact ⟨fun h => ⟨h.1, h.2⟩, fun h => ⟨h.named, h.plain⟩⟩

-- by a run through the name's characters, not through all there are
instance (name : String) : Decidable (Identifier name) := decidable_of_iff _ (identifier_iff name)

theorem Identifier.nonempty {name : String} (h : Identifier name) : name ≠ "" := by
  rintro rfl
  exact absurd h.named (by simp [isUnnamed])

/-- A name on a written path, perhaps with template arguments, brackets included. -/
structure PathPart where
  name : String
  arguments : Option String := none
  identifier : Identifier name
  bracketed : ∀ a ∈ arguments, a.toList.head? = some '<'

theorem PathPart.bracketed_none : ∀ a ∈ (none : Option String), a.toList.head? = some '<' := nofun

def PathPart.text (part : PathPart) : String := part.name ++ part.arguments.getD ""

theorem Text.trim_of_unblank {s : List Char} (h : ∀ c ∈ s, isBlank c = false) : trim s = s := by
  have start : ∀ t : List Char, (∀ c ∈ t, isBlank c = false) → trimStart t = t := by
    intro t ht
    cases t with
    | nil => rfl
    | cons c t => simp [trimStart, ht c (List.mem_cons_self ..)]
  rw [trim, start s h, trimEnd, start s.reverse (fun c hc => h c (List.mem_reverse.mp hc)), List.reverse_reverse]

namespace Scope

@[simp] theorem join_nil : join [] = "" := rfl

theorem join_cons (part : String) (parts : List String) : join (part :: parts) = "::" ++ part ++ join parts := by
  simp [join]

theorem join_append_singleton (parts : List String) (part : String) :
    join (parts ++ [part]) = join parts ++ "::" ++ part := by
  simp [join, String.append_assoc]

/-! ## Reading a part -/

def balance (s : List Char) : Int := s.count '<' - s.count '>'

theorem balance_cons (c : Char) (s : List Char) : balance (c :: s) = tilt c + balance s := by
  unfold balance tilt
  by_cases hopen : c = '<'
  · simp [hopen]
    omega
  · by_cases hclose : c = '>'
    · simp [hclose]
      omega
    · simp [hopen, hclose]

/-- No separator shows in the text when it is read from the given depth on. -/
def Sealed (depth : Int) (s : List Char) : Prop :=
  ∀ i < s.length, "::".toList <+: s.drop i → depth + balance (s.take i) ≠ 0

instance (depth : Int) (s : List Char) : Decidable (Sealed depth s) :=
  inferInstanceAs (Decidable (∀ i < _, _ → _))

theorem Sealed.tail {depth : Int} {c : Char} {s : List Char} (h : Sealed depth (c :: s)) :
    Sealed (depth + tilt c) s := by
  intro i hi hsep
  have hnext := h (i + 1) (by simpa using hi) hsep
  rw [List.take_succ_cons, balance_cons] at hnext
  omega

theorem not_sealed_colons (s : List Char) : ¬ Sealed 0 (':' :: ':' :: s) := by
  intro h
  exact h 0 (by simp) (by simp) rfl

theorem sealed_of_no_colon {s : List Char} (h : ':' ∉ s) (depth : Int) : Sealed depth s := by
  intro i _ hsep
  have hcolon : ':' ∈ s.drop i := hsep.subset (by simp)
  exact absurd (List.mem_of_mem_drop hcolon) h

theorem cutFrom_inside {depth : Int} (h : depth ≠ 0) (part : List Char) (c : Char) (s : List Char) :
    cutFrom depth part (c :: s) = cutFrom (depth + tilt c) (part ++ [c]) s := by
  by_cases hsep : c = ':' ∧ ∃ t, s = ':' :: t
  · obtain ⟨rfl, t, rfl⟩ := hsep
    have htilt : tilt ':' = 0 := by decide
    rw [cutFrom, if_neg h, htilt, Int.add_zero]
  · rw [cutFrom]
    rintro t rfl rfl
    exact hsep ⟨rfl, t, rfl⟩

/-- A sealed text is read into the current part, unless its last colon and the next character make a
separator. -/
theorem cutFrom_sealed (rest : List Char) : ∀ {s : List Char} {depth : Int}, Sealed depth s →
    (s.getLast? = some ':' → rest.head? ≠ some ':') → ∀ part,
      cutFrom depth part (s ++ rest) = cutFrom (depth + balance s) (part ++ s) rest
  | [], depth, _, _, part => by simp [balance]
  | c :: s, depth, h, hjoint, part => by
    have hchar : cutFrom depth part (c :: (s ++ rest)) = cutFrom (depth + tilt c) (part ++ [c]) (s ++ rest) := by
      by_cases hdepth : depth = 0
      · rw [cutFrom]
        rintro t rfl htext
        -- the other colon is the text's own or the next character
        cases s with
        | nil => exact hjoint rfl (by simp [show rest = ':' :: t from htext])
        | cons d s =>
          obtain ⟨rfl, -⟩ := List.cons.inj htext
          rw [hdepth] at h
          exact not_sealed_colons s h
      · exact cutFrom_inside hdepth part c (s ++ rest)
    have hlast : s.getLast? = some ':' → rest.head? ≠ some ':' := by
      intro hs
      apply hjoint
      rw [List.getLast?_cons, hs]
      rfl
    rw [List.cons_append, hchar, cutFrom_sealed rest h.tail hlast, balance_cons, ← Int.add_assoc, ← List.append_cons]

theorem balance_of_plain {s : List Char} (h : ∀ c ∈ s, c ≠ '<' ∧ c ≠ '>') : balance s = 0 := by
  have hopen : s.count '<' = 0 := List.count_eq_zero.mpr fun hm => (h _ hm).1 rfl
  have hclose : s.count '>' = 0 := List.count_eq_zero.mpr fun hm => (h _ hm).2 rfl
  simp [balance, hopen, hclose]

theorem cutFrom_word (word rest : List Char) (h : ∀ c ∈ word, c ≠ ':' ∧ c ≠ '<' ∧ c ≠ '>') (part : List Char) :
    cutFrom 0 part (word ++ rest) = cutFrom 0 (part ++ word) rest := by
  have hcolon : ':' ∉ word := fun hm => (h _ hm).1 rfl
  rw [cutFrom_sealed rest (sealed_of_no_colon hcolon 0) fun hlast => absurd (List.mem_of_getLast? hlast) hcolon,
    balance_of_plain fun c hc => (h c hc).2]
  rfl

/-! ## Components -/

/-- A text that can be a name's last component. -/
structure Component (part : String) : Prop where
  nonempty : part ≠ ""
  trimmed : Text.trimmed part = part
  sealed : Sealed 0 part.toList

/-- What a component also needs if another follows it. -/
structure Closed (part : String) : Prop where
  balanced : part.toList.count '<' = part.toList.count '>'
  noColon : part.toList.getLast? ≠ some ':'

instance (part : String) : Decidable (Component part) :=
  decidable_of_iff (part ≠ "" ∧ Text.trimmed part = part ∧ Sealed 0 part.toList)
    ⟨fun h => ⟨h.1, h.2.1, h.2.2⟩, fun h => ⟨h.nonempty, h.trimmed, h.sealed⟩⟩

instance (part : String) : Decidable (Closed part) :=
  decidable_of_iff (part.toList.count '<' = part.toList.count '>' ∧ part.toList.getLast? ≠ some ':')
    ⟨fun h => ⟨h.1, h.2⟩, fun h => ⟨h.balanced, h.noColon⟩⟩

theorem Component.trim_toList {part : String} (h : Component part) : Text.trim part.toList = part.toList := by
  have htrim := congrArg String.toList h.trimmed
  rwa [Text.trimmed, String.toList_ofList] at htrim

theorem toList_join_cons (part : String) (parts : List String) :
    (join (part :: parts)).toList = ':' :: ':' :: (part.toList ++ (join parts).toList) := by
  simp [join_cons]

theorem cutFrom_join : ∀ {parts : List String}, (∀ p ∈ parts, Component p) → (∀ p ∈ parts.dropLast, Closed p) →
    ∀ part, cutFrom 0 part (join parts).toList = part :: parts.map String.toList
  | [], _, _, part => by simp [cutFrom]
  | [p], hparts, _, part => by
    have hp := hparts p (List.mem_cons_self ..)
    have hread := cutFrom_sealed [] hp.sealed (by simp) []
    rw [toList_join_cons, cutFrom, if_pos rfl, join_nil, String.toList_empty, hread]
    simp [cutFrom]
  | p :: next :: parts, hparts, hinner, part => by
    obtain ⟨hp, hparts⟩ := List.forall_mem_cons.mp hparts
    rw [List.dropLast_cons_cons] at hinner
    obtain ⟨hclosed, hinner⟩ := List.forall_mem_cons.mp hinner
    have hlevel : balance p.toList = 0 := by simp [balance, hclosed.balanced]
    have hread := cutFrom_sealed (join (next :: parts)).toList hp.sealed
      (fun hlast => absurd hlast hclosed.noColon) []
    rw [hlevel] at hread
    rw [toList_join_cons, cutFrom, if_pos rfl, hread]
    exact congrArg (part :: ·) (cutFrom_join hparts hinner p.toList)

theorem split_join_components {parts : List String} (h : ∀ p ∈ parts, Component p)
    (hinner : ∀ p ∈ parts.dropLast, Closed p) : split (join parts) = parts := by
  have htrim : (parts.map String.toList).map Text.trim = parts.map String.toList := by
    rw [List.map_map]
    exact List.map_congr_left fun p hp => (h p hp).trim_toList
  have hfull : (parts.map String.toList).filter (fun part => !part.isEmpty) = parts.map String.toList := by
    rw [List.filter_eq_self]
    intro s hs
    obtain ⟨p, hp, rfl⟩ := List.mem_map.mp hs
    simpa using (h p hp).nonempty
  have hnil : Text.trim [] = [] := rfl
  rw [split, splitChars, cutFrom_join h hinner, List.map_cons, htrim, hnil, List.filter_cons_of_neg (by simp), hfull,
    List.map_map]
  have hid : (String.ofList ∘ String.toList) = id := by
    funext s
    simp
  rw [hid, List.map_id]

theorem parent_join {parts : List String} (h : split (join parts) = parts) (hne : parts ≠ []) :
    parent (join parts) = if parts.length = 1 then "::" else join parts.dropLast := by
  rw [parent, h]
  match parts, hne with
  | [p], _ => rfl
  | p :: next :: parts, _ => simp

/-- Splitting undoes joining, and the scope around a joined name is joined from all components but the last. -/
theorem joined_components_split_back {parts : List String} (h : ∀ p ∈ parts, Component p)
    (hinner : ∀ p ∈ parts.dropLast, Closed p) :
    split (join parts) = parts ∧
      (parts ≠ [] → parent (join parts) = if parts.length = 1 then "::" else join parts.dropLast) := by
  have hsplit := split_join_components h hinner
  exact ⟨hsplit, parent_join hsplit⟩

-- separators in brackets and behind a stray one, and an operator that leaves a bracket open
theorem operator_in_template_splits_back :
    (∀ p ∈ ["std", "map<std::string, int>", ":a>::<b", "operator->::"], Component p) ∧
      (∀ p ∈ ["std", "map<std::string, int>", ":a>::<b"], Closed p) ∧
      split "::std::map<std::string, int>:::a>::<b::operator->::" =
        ["std", "map<std::string, int>", ":a>::<b", "operator->::"] ∧
      parent "::std::map<std::string, int>:::a>::<b::operator->::" = "::std::map<std::string, int>:::a>::<b" := by
  have hparts : ∀ p ∈ ["std", "map<std::string, int>", ":a>::<b", "operator->::"], Component p := by decide
  have hinner : ∀ p ∈ ["std", "map<std::string, int>", ":a>::<b"], Closed p := by decide
  obtain ⟨hsplit, hparent⟩ := joined_components_split_back hparts hinner
  exact ⟨hparts, hinner, hsplit, hparent (by simp)⟩

/-! ## Identifiers -/

theorem component_of_identifier {name : String} (h : Identifier name) : Component name where
  nonempty := h.nonempty
  trimmed := by rw [Text.trimmed, Text.trim_of_unblank fun c hc => (h.plain c hc).2.2.2, String.ofList_toList]
  sealed := sealed_of_no_colon (fun hm => (h.plain _ hm).1 rfl) 0

theorem closed_of_identifier {name : String} (h : Identifier name) : Closed name where
  balanced := by
    have hlevel := balance_of_plain fun c hc => ⟨(h.plain c hc).2.1, (h.plain c hc).2.2.1⟩
    unfold balance at hlevel
    omega
  noColon := fun hlast => (h.plain _ (List.mem_of_getLast? hlast)).1 rfl

theorem split_join {parts : List String} (h : ∀ p ∈ parts, Identifier p) : split (join parts) = parts := by
  apply split_join_components
  · exact fun p hp => component_of_identifier (h p hp)
  · exact fun p hp => closed_of_identifier (h p (List.dropLast_subset _ hp))

theorem join_injective {ps qs : List String} (hp : ∀ p ∈ ps, Identifier p)
    (hq : ∀ q ∈ qs, Identifier q) (h : join ps = join qs) : ps = qs := by
  rw [← split_join hp, h, split_join hq]

theorem split_parent_join {path : List String} {name : String}
    (h : ∀ p ∈ path ++ [name], Identifier p) : split (parent (join (path ++ [name]))) = path := by
  unfold parent
  rw [split_join h, List.dropLast_concat]
  cases path with
  | nil => rfl
  | cons p path => exact split_join fun q hq => h q (List.mem_append_left _ hq)

end Scope

end SymbolIndex
