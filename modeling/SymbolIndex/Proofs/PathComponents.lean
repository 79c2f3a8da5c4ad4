import SymbolIndex.Path

/-!
# Normal paths and their components

A normal path is its components, each behind a slash, or one slash if it has none. On such paths the test by text
whether one stands under another is the test whether its components begin with those of the other, and the way
from one to the other is what is left of the components.
-/

namespace SymbolIndex.Path

/-! ## Segments -/

theorem segmentsFrom_append (rest : List Char) : ∀ (start segment : List Char),
    segmentsFrom segment (start ++ '/' :: rest) = segmentsFrom segment start ++ segmentsFrom [] rest
  | [], segment => rfl
  | c :: start, segment => by
    rw [List.cons_append, segmentsFrom, segmentsFrom]
    split
    · rw [segmentsFrom_append rest start, List.cons_append]
    · rw [segmentsFrom_append rest start]

theorem segmentsFrom_flat : ∀ (word segment : List Char), '/' ∉ word → segmentsFrom segment word = [segment ++ word]
  | [], segment, _ => by rw [segmentsFrom, List.append_nil]
  | c :: word, segment, h => by
    obtain ⟨hc, hword⟩ := not_or.mp (mt List.mem_cons.mpr h)
    have hc : ¬ (c == '/') = true := by simpa using fun e : c = '/' => hc e.symm
    rw [segmentsFrom, if_neg hc, segmentsFrom_flat word _ hword]
    simp

theorem flat_of_segmentsFrom : ∀ {s segment : List Char}, '/' ∉ segment → ∀ piece ∈ segmentsFrom segment s, '/' ∉ piece
  | [], segment, h, piece, hm => by
    rw [segmentsFrom, List.mem_singleton] at hm
    rwa [hm]
  | c :: s, segment, h, piece, hm => by
    rw [segmentsFrom] at hm
    split at hm
    · rcases List.mem_cons.mp hm with rfl | hm
      · exact h
      · exact flat_of_segmentsFrom (by simp) piece hm
    · rename_i hc
      refine flat_of_segmentsFrom ?_ piece hm
      simp only [beq_iff_eq] at hc
      simpa using ⟨h, fun e => hc e.symm⟩

theorem segments_slash (start rest : String) : segments (start ++ "/" ++ rest) = segments start ++ segments rest := by
  have htext : (start ++ "/" ++ rest).toList = start.toList ++ '/' :: rest.toList := by simp
  rw [segments, htext, segmentsFrom_append, List.map_append]
  rfl

theorem segments_flat {name : String} (h : '/' ∉ name.toList) : segments name = [name] := by
  rw [segments, segmentsFrom_flat _ _ h]
  simp

theorem flat_of_segments {path name : String} (h : name ∈ segments path) : '/' ∉ name.toList := by
  obtain ⟨piece, hpiece, rfl⟩ := List.mem_map.mp h
  rw [String.toList_ofList]
  exact flat_of_segmentsFrom (by simp) piece hpiece

theorem segmentsFrom_ne_nil : ∀ (s segment : List Char), segmentsFrom segment s ≠ []
  | [], segment => by simp [segmentsFrom]
  | c :: s, segment => by
    rw [segmentsFrom]
    split
    · simp
    · exact segmentsFrom_ne_nil s _

theorem before_last_segment : ∀ {s segment piece : List Char}, (segmentsFrom segment s).getLast? = some piece →
    ∃ before, segment ++ s = before ++ piece ∧ (before = [] ∨ before.getLast? = some '/')
  | [], segment, piece, h => by
    obtain rfl : segment = piece := by simpa [segmentsFrom] using h
    exact ⟨[], by simp, Or.inl rfl⟩
  | c :: s, segment, piece, h => by
    rw [segmentsFrom] at h
    split at h
    · rename_i hc
      obtain rfl : c = '/' := by simpa using hc
      rw [List.getLast?_cons_of_ne_nil (segmentsFrom_ne_nil s [])] at h
      obtain ⟨before, hshape, hbefore⟩ := before_last_segment h
      refine ⟨segment ++ '/' :: before, ?_, Or.inr ?_⟩
      · rw [List.nil_append] at hshape
        rw [hshape]
        simp
      · rcases hbefore with rfl | hbefore
        · simp
        · simp [List.getLast?_append, List.getLast?_cons, hbefore]
    · obtain ⟨before, hshape, hbefore⟩ := before_last_segment h
      exact ⟨before, by simpa using hshape, hbefore⟩

theorem suffix_last_segment {path name : String} (h : (segments path).getLast? = some name) {s : List Char}
    (flat : '/' ∉ s) : s <:+ path.toList ↔ s <:+ name.toList := by
  obtain ⟨piece, hpiece, rfl⟩ : ∃ piece, (segmentsFrom [] path.toList).getLast? = some piece ∧ String.ofList piece = name := by
    simpa [segments] using h
  obtain ⟨before, hshape, hbefore⟩ := before_last_segment hpiece
  rw [List.nil_append] at hshape
  rw [hshape, String.toList_ofList]
  constructor
  · intro hs
    rcases List.suffix_or_suffix_of_suffix hs (List.suffix_append before piece) with hshort | ⟨extra, rfl⟩
    · exact hshort
    · -- what goes beyond the last segment ends in the slash before it
      obtain ⟨start, hstart⟩ := hs
      rw [← List.append_assoc, List.append_cancel_right_eq] at hstart
      rcases List.eq_nil_or_concat extra with rfl | ⟨front, c, rfl⟩
      · exact List.suffix_rfl
      · subst hstart
        have hc : c = '/' := by simpa [← List.append_assoc] using hbefore
        simp [hc] at flat
  · exact fun hs => hs.trans (List.suffix_append before piece)

/-! ## Names -/

/-- What a normal path may have as a component. -/
structure IsName (name : String) : Prop where
  nonempty : name ≠ ""
  notHere : name ≠ "."
  notUp : name ≠ ".."
  flat : '/' ∉ name.toList

theorem isName_iff (name : String) :
    (name ≠ "" ∧ name ≠ "." ∧ name ≠ ".." ∧ '/' ∉ name.toList) ↔ IsName name :=
  ⟨fun h => ⟨h.1, h.2.1, h.2.2.1, h.2.2.2⟩, fun h => ⟨h.nonempty, h.notHere, h.notUp, h.flat⟩⟩

instance (name : String) : Decidable (IsName name) := decidable_of_iff _ (isName_iff name)

theorem descend_name (components : List String) {name : String} (h : IsName name) :
    descend components name = components ++ [name] := by
  rw [descend, if_neg (by simp [h.nonempty, h.notHere]), if_neg h.notUp]

theorem foldl_descend_names : ∀ {names : List String}, (∀ name ∈ names, IsName name) →
    ∀ start, names.foldl descend start = start ++ names
  | [], _, start => by simp
  | name :: names, h, start => by
    obtain ⟨hname, hnames⟩ := List.forall_mem_cons.mp h
    rw [List.foldl_cons, descend_name start hname, foldl_descend_names hnames]
    simp

theorem names_of_descend {components : List String} {segment : String} (hflat : '/' ∉ segment.toList)
    (h : ∀ name ∈ components, IsName name) : ∀ name ∈ descend components segment, IsName name := by
  unfold descend
  split
  · exact h
  · rename_i hkept
    obtain ⟨hempty, hhere⟩ := not_or.mp hkept
    split
    · exact fun name hname => h name (List.dropLast_subset _ hname)
    · rename_i hup
      intro name hname
      rcases List.mem_append.mp hname with hname | hname
      · exact h name hname
      · rw [List.mem_singleton.mp hname]
        exact ⟨hempty, hhere, hup, hflat⟩

theorem names_of_foldl : ∀ {segments start : List String}, (∀ segment ∈ segments, '/' ∉ segment.toList) →
    (∀ name ∈ start, IsName name) → ∀ name ∈ segments.foldl descend start, IsName name
  | [], _, _, hstart => hstart
  | segment :: segments, start, hflat, hstart => by
    obtain ⟨hsegment, hsegments⟩ := List.forall_mem_cons.mp hflat
    rw [List.foldl_cons]
    exact names_of_foldl hsegments (names_of_descend hsegment hstart)

theorem components_names (base path : String) : ∀ name ∈ components base path, IsName name := by
  unfold components
  refine names_of_foldl (fun _ h => flat_of_segments h) ?_
  split
  · simp
  · exact names_of_foldl (fun _ h => flat_of_segments h) (by simp)

/-! ## Normal paths -/

def trail (names : List String) : String := String.join (names.map ("/" ++ ·))

theorem trail_cons (name : String) (names : List String) : trail (name :: names) = "/" ++ name ++ trail names := by
  simp [trail]

theorem trail_append (names names' : List String) : trail (names ++ names') = trail names ++ trail names' := by
  simp [trail]

theorem ofComponents_eq_trail {names : List String} (h : names ≠ []) : ofComponents names = trail names := by
  cases names with
  | nil => exact absurd rfl h
  | cons name names => rfl

theorem segments_trail : ∀ {names : List String}, (∀ name ∈ names, IsName name) →
    ∀ start : String, segments (start ++ trail names) = segments start ++ names
  | [], _, start => by simp [trail]
  | name :: names, h, start => by
    obtain ⟨hname, hnames⟩ := List.forall_mem_cons.mp h
    have htext : start ++ trail (name :: names) = start ++ "/" ++ name ++ trail names := by
      rw [trail_cons]
      simp only [String.append_assoc]
    rw [htext, segments_trail hnames, segments_slash, segments_flat hname.flat]
    simp

theorem foldl_segments_trail {names : List String} (h : ∀ name ∈ names, IsName name) :
    (segments (trail names)).foldl descend [] = names := by
  have htrail := segments_trail h ""
  rw [String.empty_append] at htrail
  rw [htrail, List.foldl_append, foldl_descend_names h]
  rfl

theorem components_ofComponents (base : String) {names : List String} (h : ∀ name ∈ names, IsName name) :
    components base (ofComponents names) = names := by
  cases names with
  | nil => rfl
  | cons name names =>
    have habsolute : isAbsolute (trail (name :: names)) = true := by simp [isAbsolute, trail_cons]
    rw [ofComponents_eq_trail (by simp), components, habsolute, if_pos rfl, foldl_segments_trail h]

theorem components_below (base : String) {names : List String} (h : ∀ name ∈ names, IsName name) (rest : String) :
    components base (trail names ++ "/" ++ rest) = (segments rest).foldl descend names := by
  have habsolute : isAbsolute (trail names ++ "/" ++ rest) = true := by
    cases names with
    | nil => simp [isAbsolute, trail]
    | cons name names => simp [isAbsolute, trail_cons]
  rw [components, habsolute, if_pos rfl, segments_slash, List.foldl_append, foldl_segments_trail h]

/-- A path that normalising leaves as it is. -/
def IsNormal (path : String) : Prop := ∃ names, (∀ name ∈ names, IsName name) ∧ path = ofComponents names

theorem normalize_isNormal (base path : String) : IsNormal (normalize base path) :=
  ⟨components base path, components_names base path, rfl⟩

theorem IsNormal.normalize_eq {path : String} (h : IsNormal path) (base : String) : normalize base path = path := by
  obtain ⟨names, hnames, rfl⟩ := h
  rw [normalize, components_ofComponents base hnames]

theorem isNormal_iff (base path : String) : IsNormal path ↔ normalize base path = path :=
  ⟨fun h => h.normalize_eq base, fun h => h ▸ normalize_isNormal base path⟩

instance (path : String) : Decidable (IsNormal path) := decidable_of_iff _ (isNormal_iff "" path).symm

/-! ## One path under another -/

theorem getLast?_trail : ∀ {names : List String}, names ≠ [] → (∀ name ∈ names, IsName name) →
    (trail names).toList.getLast? ≠ some '/'
  | [], hne, _ => absurd rfl hne
  | name :: names, _, h => by
    obtain ⟨hname, hnames⟩ := List.forall_mem_cons.mp h
    rw [trail_cons, String.toList_append, List.getLast?_append]
    intro hslash
    rcases Option.or_eq_some_iff.mp hslash with hrest | ⟨-, hlast⟩
    · by_cases hne : names = []
      · simp [hne, trail] at hrest
      · exact getLast?_trail hne hnames hrest
    · rw [String.toList_append, List.getLast?_append] at hlast
      rcases Option.or_eq_some_iff.mp hlast with hlast | ⟨hempty, -⟩
      · exact hname.flat (List.mem_of_getLast? hlast)
      · exact hname.nonempty (by simpa using hempty)

theorem asFolder_of_getLast? {directory : String} (h : directory.toList.getLast? ≠ some '/') :
    asFolder directory = directory ++ "/" := by
  have hkept : directory.toList.reverse.dropWhile (· == '/') = directory.toList.reverse := by
    rw [← List.head?_reverse] at h
    cases hs : directory.toList.reverse with
    | nil => rfl
    | cons c s =>
      rw [hs] at h
      rw [List.dropWhile_cons_of_neg (by simpa using h)]
  rw [asFolder, hkept, List.reverse_reverse, String.ofList_toList]

section
variable {names : List String} (h : ∀ name ∈ names, IsName name)
include h

theorem asFolder_ofComponents : asFolder (ofComponents names) = trail names ++ "/" := by
  by_cases hne : names = []
  · rw [hne]
    rfl
  · rw [ofComponents_eq_trail hne, asFolder_of_getLast? (getLast?_trail hne h)]

theorem inside_ofComponents (name : String) : inside (ofComponents names) name = trail names ++ "/" ++ name := by
  by_cases hne : names = []
  · rw [hne]
    rfl
  · have hlast := getLast?_trail hne h
    have hfull : trail names ≠ "" := by
      obtain ⟨first, rest, rfl⟩ := List.exists_cons_of_ne_nil hne
      simp [trail_cons]
    rw [ofComponents_eq_trail hne, inside, if_neg (by simp [hlast, hfull])]

theorem filter_segments_trail : (segments (trail names)).filter (· ≠ "") = names := by
  have hkept : names.filter (· ≠ "") = names := by
    rw [List.filter_eq_self]
    intro name hname
    simpa using (h name hname).nonempty
  have htrail := segments_trail h ""
  rw [String.empty_append] at htrail
  rw [htrail, List.filter_append, hkept]
  rfl

theorem filter_segments_ofComponents : (segments (ofComponents names)).filter (· ≠ "") = names := by
  by_cases hne : names = []
  · rw [hne]
    rfl
  · rw [ofComponents_eq_trail hne, filter_segments_trail h]

end

/-- A normal path stands under another just if its components begin with those of the other. -/
theorem isUnder_ofComponents {roots names : List String} (hroots : ∀ name ∈ roots, IsName name)
    (h : ∀ name ∈ names, IsName name) : isUnder (ofComponents roots) (ofComponents names) = true ↔ roots <+: names := by
  rw [isUnder, Bool.or_eq_true, beq_iff_eq, List.isPrefixOf_iff_prefix, asFolder_ofComponents hroots]
  constructor
  · rintro (heq | ⟨rest, hrest⟩)
    · have hsame := congrArg (components "") heq
      rw [components_ofComponents "" h, components_ofComponents "" hroots] at hsame
      exact hsame ▸ List.prefix_rfl
    · -- the text goes on behind a slash, so the segments go on
      have htext : ofComponents names = trail roots ++ "/" ++ String.ofList rest := by
        rw [← String.toList_inj, String.toList_append, String.toList_ofList, hrest]
      have hnames := filter_segments_ofComponents h
      rw [htext, segments_slash, List.filter_append, filter_segments_trail hroots] at hnames
      exact ⟨_, hnames⟩
  · rintro ⟨rest, rfl⟩
    cases rest with
    | nil => exact Or.inl (by rw [List.append_nil])
    | cons name rest =>
      right
      rw [ofComponents_eq_trail (by simp), trail_append, trail_cons]
      simp

/-! ## The way down -/

theorem dropCommon_append : ∀ names rest : List String, dropCommon names (names ++ rest) = ([], rest)
  | [], rest => by cases rest <;> rfl
  | name :: names, rest => by rw [List.cons_append, dropCommon, if_pos rfl, dropCommon_append names rest]

/-- The way down through some components, or a dot if there is none to go through. -/
def wayDown (rest : List String) : String := if rest = [] then "." else "/".intercalate rest

theorem relative_ofComponents (base : String) {names rest : List String} (h : ∀ name ∈ names ++ rest, IsName name) :
    relative base (ofComponents names) (ofComponents (names ++ rest)) = wayDown rest := by
  have hnames : ∀ name ∈ names, IsName name := fun name hname => h name (List.mem_append_left _ hname)
  rw [relative, components_ofComponents base hnames, components_ofComponents base h, dropCommon_append]
  cases rest <;> simp [wayDown]

theorem segments_intercalate : ∀ {names : List String}, names ≠ [] → (∀ name ∈ names, IsName name) →
    segments ("/".intercalate names) = names
  | [], hne, _ => absurd rfl hne
  | [name], _, h => by
    rw [String.intercalate_singleton, segments_flat (h name (by simp)).flat]
  | name :: next :: names, _, h => by
    obtain ⟨hname, hnames⟩ := List.forall_mem_cons.mp h
    rw [String.intercalate_cons_cons, segments_slash, segments_flat hname.flat, segments_intercalate (by simp) hnames]
    rfl

theorem wayDown_spec {rest : List String} (h : ∀ name ∈ rest, IsName name) :
    (∀ names, (segments (wayDown rest)).foldl descend names = names ++ rest) ∧ ".." ∉ segments (wayDown rest) := by
  unfold wayDown
  split
  · rename_i hrest
    subst hrest
    exact ⟨fun names => by simp [segments, segmentsFrom, descend], by decide⟩
  · rename_i hne
    rw [segments_intercalate hne h]
    exact ⟨foldl_descend_names h, fun hup => (h _ hup).notUp rfl⟩

/-! ## Names inside a directory -/

theorem inside_eq (directory name : String) : inside directory name = inside directory "" ++ name := by
  unfold inside
  split <;> simp

theorem inside_inside {name : String} (h : IsName name) (path : String) {names : List String} (hne : names ≠ []) :
    inside (inside path name) ("/".intercalate names) = inside path ("/".intercalate (name :: names)) := by
  obtain ⟨next, names, rfl⟩ := List.exists_cons_of_ne_nil hne
  have hlast : (inside path name).toList.getLast? ≠ some '/' := by
    rw [inside_eq, String.toList_append, List.getLast?_append]
    intro hslash
    rcases Option.or_eq_some_iff.mp hslash with hslash | ⟨hempty, -⟩
    · exact h.flat (List.mem_of_getLast? hslash)
    · exact h.nonempty (by simpa using hempty)
  have hfull : inside path name ≠ "" := by
    rw [inside_eq]
    simp [h.nonempty]
  rw [String.intercalate_cons_cons, inside_eq path (_ ++ _), inside, if_neg (by simp [hlast, hfull]), inside_eq path name]
  simp only [String.append_assoc]

theorem inside_intercalate_inj {path : String} {names names' : List String} (hne : names ≠ []) (hne' : names' ≠ [])
    (h : ∀ name ∈ names, IsName name) (h' : ∀ name ∈ names', IsName name)
    (heq : inside path ("/".intercalate names) = inside path ("/".intercalate names')) : names = names' := by
  rw [inside_eq, inside_eq path ("/".intercalate names'), String.append_right_inj] at heq
  rw [← segments_intercalate hne h, heq, segments_intercalate hne' h']

namespace IsNormal

theorem not_isUnder_empty {root : String} (h : IsNormal root) : isUnder root "" = false := by
  have hne : "" ≠ root := by
    rintro rfl
    exact absurd h (by decide)
  simp [isUnder, hne, asFolder]

variable {root path : String} (hr : IsNormal root) (hp : IsNormal path) (base : String)
include hr hp

theorem isUnder_iff : isUnder root path = true ↔ components base root <+: components base path := by
  obtain ⟨roots, hroots, rfl⟩ := hr
  obtain ⟨names, hnames, rfl⟩ := hp
  rw [components_ofComponents base hroots, components_ofComponents base hnames, isUnder_ofComponents hroots hnames]

theorem relative_eq {rest : List String} (h : components base path = components base root ++ rest) :
    relative base root path = wayDown rest ∧ normalize base (inside root (wayDown rest)) = path ∧
      ".." ∉ segments (wayDown rest) := by
  obtain ⟨roots, hroots, rfl⟩ := hr
  obtain ⟨names, hnames, rfl⟩ := hp
  rw [components_ofComponents base hroots, components_ofComponents base hnames] at h
  subst h
  obtain ⟨hdown, hup⟩ := wayDown_spec fun name hname => hnames name (List.mem_append_right _ hname)
  refine ⟨relative_ofComponents base hnames, ?_, hup⟩
  rw [normalize, inside_ofComponents hroots, components_below base hroots, hdown]

end IsNormal

end SymbolIndex.Path
