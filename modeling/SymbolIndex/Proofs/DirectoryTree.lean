import SymbolIndex.Disk
import SymbolIndex.Proofs.PathComponents

/-!
# Files in a directory tree

In a proper tree entries have proper names, no two of one directory alike, so a file is given by the names that lead
down to it. Following a path goes on from each folder that it reaches, so the path of a folder with names behind it
leads to what the names lead to from the folder.
-/

namespace SymbolIndex

open SymbolIndex.Path

namespace Directory

/-- Entries have proper names, and no two entries of one directory have the same. -/
def Proper : Directory → Prop
  | empty => True
  | file name rest => IsName name ∧ rest.find? name = none ∧ rest.Proper
  | folder name inner rest => IsName name ∧ rest.find? name = none ∧ inner.Proper ∧ rest.Proper

def decideProper : (dir : Directory) → Decidable dir.Proper
  | empty => .isTrue trivial
  | file name rest =>
    have := rest.decideProper
    inferInstanceAs (Decidable (IsName name ∧ rest.find? name = none ∧ rest.Proper))
  | folder name inner rest =>
    have := inner.decideProper
    have := rest.decideProper
    inferInstanceAs (Decidable (IsName name ∧ rest.find? name = none ∧ inner.Proper ∧ rest.Proper))

instance (dir : Directory) : Decidable dir.Proper := dir.decideProper

theorem Proper.of_find? {name : String} {inner : Directory} : ∀ {dir : Directory}, dir.Proper →
    dir.find? name = some (.folder inner) → inner.Proper
  | empty, _, h => by simp [find?] at h
  | file other rest, proper, h => by
    rw [find?] at h
    split at h
    · simp at h
    · exact of_find? proper.2.2 h
  | folder other below rest, proper, h => by
    rw [find?] at h
    split at h
    · obtain rfl : below = inner := by simpa using h
      exact proper.2.2.1
    · exact of_find? proper.2.2.2 h

theorem follow_cons (dir : Directory) (outer : List Directory) (step : String) (steps : List String) :
    dir.follow outer (step :: steps) =
      if step = "" ∨ step = "." then dir.follow outer steps
      else if step = ".." then (outer.headD dir).follow outer.tail steps
      else
        match dir.find? step with
        | none => none
        | some .file => if steps.isEmpty then some .file else none
        | some (.folder inner) => inner.follow (dir :: outer) steps := by
  rw [follow.eq_def]
  cases outer <;> rfl

/-- A step leads on into a directory, whatever comes behind it, or no folder is reached by it. -/
theorem follow_step (dir : Directory) (outer : List Directory) (step : String) :
    (∃ (next : Directory) (above : List Directory),
        (∀ steps, dir.follow outer (step :: steps) = next.follow above steps) ∧
        (dir.Proper → (∀ up ∈ outer, up.Proper) → next.Proper ∧ ∀ up ∈ above, up.Proper)) ∨
      ∀ steps inner, dir.follow outer (step :: steps) ≠ some (.folder inner) := by
  by_cases hhere : step = "" ∨ step = "."
  · exact Or.inl ⟨dir, outer, fun steps => by rw [follow_cons, if_pos hhere], And.intro⟩
  · by_cases hback : step = ".."
    · refine Or.inl ⟨outer.headD dir, outer.tail, fun steps => ?_, ?_⟩
      · rw [follow_cons, if_neg hhere, if_pos hback]
      · intro proper hup
        cases outer with
        | nil => exact ⟨proper, hup⟩
        | cons up outer => exact List.forall_mem_cons.mp hup
    · have hstep := fun steps => follow_cons dir outer step steps
      simp only [if_neg hhere, if_neg hback] at hstep
      cases hfound : dir.find? step with
      | none =>
        right
        simp [hstep, hfound]
      | some entry =>
        cases entry with
        | file =>
          right
          simp [hstep, hfound]
        | folder inner =>
          left
          refine ⟨inner, dir :: outer, fun steps => by rw [hstep, hfound], fun proper hup => ?_⟩
          exact ⟨proper.of_find? hfound, List.forall_mem_cons.mpr ⟨proper, hup⟩⟩

/-- Where a folder is reached, everything behind is followed from there; in a proper tree it is proper. -/
theorem follow_append {inner : Directory} : ∀ {steps : List String} {dir : Directory} {outer : List Directory},
    dir.follow outer steps = some (.folder inner) →
      (∃ above, ∀ more, dir.follow outer (steps ++ more) = inner.follow above more) ∧
        (dir.Proper → (∀ up ∈ outer, up.Proper) → inner.Proper)
  | [], dir, outer, h => by
    obtain rfl : dir = inner := by simpa [follow] using h
    exact ⟨⟨outer, fun _ => rfl⟩, fun proper _ => proper⟩
  | step :: steps, dir, outer, h => by
    rcases follow_step dir outer step with ⟨next, above, hnext, hproper⟩ | hnone
    · rw [hnext] at h
      obtain ⟨⟨below, hbelow⟩, hinner⟩ := follow_append h
      refine ⟨⟨below, fun more => ?_⟩, fun proper hup => ?_⟩
      · rw [List.cons_append, hnext, hbelow]
      · exact hinner (hproper proper hup).1 (hproper proper hup).2
    · exact absurd h (hnone steps inner)

theorem follow_slash {inner : Directory} : ∀ {steps : List String} {dir : Directory} {outer : List Directory},
    dir.follow outer (steps ++ [""]) = some (.folder inner) → dir.follow outer steps = some (.folder inner)
  | [], dir, outer, h => h
  | step :: steps, dir, outer, h => by
    rcases follow_step dir outer step with ⟨next, above, hnext, -⟩ | hnone
    · rw [List.cons_append, hnext] at h
      rw [hnext]
      exact follow_slash h
    · exact absurd h (hnone _ inner)

/-! ## Ways down -/

theorem follow_name {name : String} (h : IsName name) (dir : Directory) (outer : List Directory) (names : List String) :
    dir.follow outer (name :: names) =
      match dir.find? name with
      | none => none
      | some .file => if names.isEmpty then some .file else none
      | some (.folder inner) => inner.follow (dir :: outer) names := by
  rw [follow_cons, if_neg (by simp [h.nonempty, h.notHere]), if_neg h.notUp]

theorem follow_names : ∀ {names : List String}, (∀ name ∈ names, IsName name) → ∀ (dir : Directory)
    (outer outer' : List Directory), dir.follow outer names = dir.follow outer' names
  | [], _, dir, outer, outer' => rfl
  | name :: names, h, dir, outer, outer' => by
    rw [List.forall_mem_cons] at h
    rw [follow_name h.1, follow_name h.1]
    cases dir.find? name with
    | none => rfl
    | some entry =>
      cases entry with
      | file => rfl
      | folder inner => exact follow_names h.2 inner _ _

structure HasFile (dir : Directory) (names : List String) : Prop where
  proper : ∀ name ∈ names, IsName name
  leads : dir.follow [] names = some .file

theorem hasFile_iff {dir : Directory} {names : List String} : dir.HasFile names ↔
    ∃ name below, names = name :: below ∧ IsName name ∧
      (dir.find? name = some .file ∧ below = [] ∨ ∃ inner, dir.find? name = some (.folder inner) ∧ inner.HasFile below) := by
  constructor
  · rintro ⟨proper, leads⟩
    cases names with
    | nil => simp [follow] at leads
    | cons name below =>
      rw [List.forall_mem_cons] at proper
      rw [follow_name proper.1] at leads
      refine ⟨name, below, rfl, proper.1, ?_⟩
      split at leads
      · cases leads
      · rename_i hfound
        exact Or.inl ⟨hfound, by simpa using leads⟩
      · rename_i inner hfound
        exact Or.inr ⟨inner, hfound, proper.2, by rw [← leads, follow_names proper.2]⟩
  · rintro ⟨name, below, rfl, hname, ⟨hfound, rfl⟩ | ⟨inner, hfound, hbelow⟩⟩
    · exact ⟨by simpa using hname, by simp [follow_name hname, hfound]⟩
    · refine ⟨List.forall_mem_cons.mpr ⟨hname, hbelow.proper⟩, ?_⟩
      rw [follow_name hname, hfound, ← hbelow.leads]
      exact follow_names hbelow.proper inner _ _

theorem HasFile.ne_nil {dir : Directory} {names : List String} (h : dir.HasFile names) : names ≠ [] := by
  obtain ⟨name, below, rfl, -⟩ := hasFile_iff.mp h
  simp

theorem not_hasFile_empty (names : List String) : ¬ empty.HasFile names := by
  rw [hasFile_iff]
  simp [find?]

theorem hasFile_front {dir rest : Directory} {name : String} {entry : DiskEntry} {names : List String}
    (hname : IsName name) (hnew : rest.find? name = none)
    (hfind : ∀ first, dir.find? first = if name = first then some entry else rest.find? first) :
    dir.HasFile names ↔
      (∃ below, names = name :: below ∧
        (entry = .file ∧ below = [] ∨ ∃ inner, entry = .folder inner ∧ inner.HasFile below)) ∨ rest.HasFile names := by
  rw [hasFile_iff, hasFile_iff]
  constructor
  · rintro ⟨first, below, rfl, hfirst, h⟩
    rw [hfind] at h
    by_cases hsame : name = first
    · subst hsame
      rw [if_pos rfl] at h
      simp only [Option.some.injEq] at h
      exact Or.inl ⟨below, rfl, h⟩
    · rw [if_neg hsame] at h
      exact Or.inr ⟨first, below, rfl, hfirst, h⟩
  · rintro (⟨below, rfl, h⟩ | ⟨first, below, rfl, hfirst, h⟩)
    · refine ⟨name, below, rfl, hname, ?_⟩
      rw [hfind, if_pos rfl]
      simpa only [Option.some.injEq] using h
    · refine ⟨first, below, rfl, hfirst, ?_⟩
      have hsame : name ≠ first := by
        rintro rfl
        simp [hnew] at h
      rwa [hfind, if_neg hsame]

section
variable {name : String} {inner rest : Directory} {names : List String}

theorem hasFile_file (proper : (file name rest).Proper) :
    (file name rest).HasFile names ↔ names = [name] ∨ rest.HasFile names := by
  rw [hasFile_front proper.1 proper.2.1 fun _ => rfl]
  simp

theorem hasFile_folder (proper : (folder name inner rest).Proper) :
    (folder name inner rest).HasFile names ↔
      (∃ below, names = name :: below ∧ inner.HasFile below) ∨ rest.HasFile names := by
  rw [hasFile_front proper.1 proper.2.1 fun _ => rfl]
  simp

end

end Directory

/-! ## Paths -/

namespace Disk

variable {disk : Disk} {path : String}

def start (disk : Disk) (path : String) : String := if isAbsolute path then "" else disk.base ++ "/"

theorem entry?_eq (hpath : path ≠ "") : disk.entry? path = disk.root.follow [] (segments (disk.start path ++ path)) := by
  unfold entry? start
  rw [if_neg hpath]
  split <;> simp

theorem start_inside (hpath : path ≠ "") (name : String) : disk.start (inside path name) = disk.start path := by
  have habsolute : isAbsolute (inside path name) = isAbsolute path := by
    obtain ⟨c, s, hs⟩ := List.exists_cons_of_ne_nil (l := path.toList) (by simpa using hpath)
    unfold inside isAbsolute
    split <;> simp [hs]
  rw [start, start, habsolute]

theorem steps_inside {dir inner : Directory} {start : String} (hpath : path ≠ "")
    (h : dir.follow [] (segments (start ++ path)) = some (.folder inner)) {names : List String} (hne : names ≠ [])
    (hnames : ∀ name ∈ names, IsName name) :
    ∃ steps, dir.follow [] steps = some (.folder inner) ∧
      segments (start ++ inside path ("/".intercalate names)) = steps ++ names := by
  by_cases hslash : path.toList.getLast? = some '/'
  · obtain ⟨front, rfl⟩ : ∃ front, path = front ++ "/" := by
      obtain ⟨front, hfront⟩ := List.getLast?_eq_some_iff.mp hslash
      refine ⟨String.ofList front, ?_⟩
      rw [← String.toList_inj, String.toList_append, String.toList_ofList]
      exact hfront
    have hend : segments (start ++ (front ++ "/")) = segments (start ++ front) ++ [""] := by
      have hslash := segments_slash (start ++ front) ""
      rwa [String.append_empty, String.append_assoc] at hslash
    refine ⟨segments (start ++ front), Directory.follow_slash (hend ▸ h), ?_⟩
    rw [inside, if_pos (Or.inr hslash), ← String.append_assoc, ← String.append_assoc, segments_slash,
      segments_intercalate hne hnames]
  · refine ⟨_, h, ?_⟩
    rw [inside, if_neg (by simp [hpath, hslash]), ← String.append_assoc, ← String.append_assoc, segments_slash,
      segments_intercalate hne hnames]

theorem ne_empty_of_found {entry : DiskEntry} (h : disk.entry? path = some entry) : path ≠ "" := by
  rintro rfl
  unfold entry? at h
  simp at h

theorem entry?_inside {inner : Directory} (h : disk.entry? path = some (.folder inner)) {names : List String}
    (hne : names ≠ []) (hnames : ∀ name ∈ names, IsName name) :
    disk.entry? (inside path ("/".intercalate names)) = inner.follow [] names := by
  have hpath := ne_empty_of_found h
  have hfound : inside path ("/".intercalate names) ≠ "" := by
    unfold inside
    split <;> simp [hpath]
  rw [entry?_eq hpath] at h
  obtain ⟨steps, hfollow, hsteps⟩ := steps_inside hpath h hne hnames
  obtain ⟨⟨above, hmore⟩, -⟩ := Directory.follow_append hfollow
  rw [entry?_eq hfound, start_inside hpath, hsteps, hmore, Directory.follow_names hnames]

theorem proper_of_folder {inner : Directory} (proper : disk.root.Proper) (h : disk.entry? path = some (.folder inner)) :
    inner.Proper := by
  rw [entry?_eq (ne_empty_of_found h)] at h
  exact (Directory.follow_append h).2 proper (by simp)

end Disk

end SymbolIndex
