import Mathlib.Data.List.Sort
import Mathlib.Data.String.Basic
import SymbolIndex.Headers
import SymbolIndex.Proofs.DirectoryTree
import SymbolIndex.Proofs.Lists

/-!
# Which headers are found

In a directory tree whose entries have proper names, no two of one directory alike, a file is given by the names that
lead down to it. Searching a directory finds the headers among the files below it: each path found leads to a file, no
path is found twice, and the paths come in order. A single file is tested by its own name.
-/

namespace SymbolIndex

open SymbolIndex.Path

/-! ## Names of headers -/

/-- A name that ends as a header's does. One line feed may follow. -/
def HeaderName (name : String) : Prop :=
  ∃ ending ∈ [".h", ".hpp", ".hxx"], ending.toList <:+ name.toList ∨ (ending ++ "\n").toList <:+ name.toList

theorem endsAsHeader_iff {s : List Char} :
    endsAsHeader s = true ↔ ∃ ending ∈ [".h", ".hpp", ".hxx"], ending.toList <:+ s := by
  simp [endsAsHeader, headerEndings]

theorem isHeader_iff {name : String} : isHeader name = true ↔ HeaderName name := by
  have hfeed : ∀ ending : String, (ending ++ "\n").toList = ending.toList ++ ['\n'] := by simp
  simp only [isHeader, Bool.or_eq_true, Bool.and_eq_true, beq_iff_eq, endsAsHeader_iff, HeaderName, hfeed,
    concat_suffix_iff]
  constructor
  · rintro (⟨ending, hm, h⟩ | ⟨hlast, ending, hm, h⟩)
    · exact ⟨ending, hm, Or.inl h⟩
    · exact ⟨ending, hm, Or.inr ⟨hlast, h⟩⟩
  · rintro ⟨ending, hm, h | ⟨hlast, h⟩⟩
    · exact Or.inl ⟨ending, hm, h⟩
    · exact Or.inr ⟨hlast, ending, hm, h⟩

instance (name : String) : Decidable (HeaderName name) := decidable_of_iff _ isHeader_iff

theorem headerName_last_segment {path name : String} (h : (segments path).getLast? = some name) :
    HeaderName path ↔ HeaderName name := by
  have hflat : ∀ ending ∈ [".h", ".hpp", ".hxx"], '/' ∉ ending.toList ∧ '/' ∉ (ending ++ "\n").toList := by decide
  constructor
  · rintro ⟨ending, hm, hends⟩
    obtain ⟨hplain, hfeed⟩ := hflat ending hm
    exact ⟨ending, hm, hends.imp (suffix_last_segment h hplain).mp (suffix_last_segment h hfeed).mp⟩
  · rintro ⟨ending, hm, hends⟩
    obtain ⟨hplain, hfeed⟩ := hflat ending hm
    exact ⟨ending, hm, hends.imp (suffix_last_segment h hplain).mpr (suffix_last_segment h hfeed).mpr⟩

/-! ## The search -/

namespace Directory

def HasHeader (dir : Directory) (names : List String) : Prop :=
  dir.HasFile names ∧ ∃ name ∈ names.getLast?, HeaderName name

section
variable {name : String} {inner rest : Directory} {names : List String}

theorem hasHeader_file (proper : (file name rest).Proper) :
    (file name rest).HasHeader names ↔ names = [name] ∧ HeaderName name ∨ rest.HasHeader names := by
  unfold HasHeader
  rw [hasFile_file proper, or_and_right]
  apply or_congr_left
  constructor
  · rintro ⟨rfl, hheader⟩
    exact ⟨rfl, by simpa using hheader⟩
  · rintro ⟨rfl, hheader⟩
    exact ⟨rfl, by simpa using hheader⟩

theorem hasHeader_folder (proper : (folder name inner rest).Proper) :
    (folder name inner rest).HasHeader names ↔
      (∃ below, names = name :: below ∧ inner.HasHeader below) ∨ rest.HasHeader names := by
  unfold HasHeader
  rw [hasFile_folder proper, or_and_right]
  apply or_congr_left
  constructor
  · rintro ⟨⟨below, rfl, hfile⟩, hheader⟩
    rw [List.getLast?_cons_of_ne_nil hfile.ne_nil] at hheader
    exact ⟨below, rfl, hfile, hheader⟩
  · rintro ⟨below, rfl, hfile, hheader⟩
    rw [List.getLast?_cons_of_ne_nil hfile.ne_nil]
    exact ⟨⟨below, rfl, hfile⟩, hheader⟩

end

theorem mem_headers {f : String} : ∀ {dir : Directory}, dir.Proper → ∀ {path : String},
    f ∈ dir.headers path ↔ ∃ names, dir.HasHeader names ∧ f = inside path ("/".intercalate names)
  | empty, _, path => by simp [headers, HasHeader, not_hasFile_empty]
  | file name rest, proper, path => by
    have hfront : f ∈ (file name rest).headers path ↔
        HeaderName name ∧ f = inside path name ∨ f ∈ rest.headers path := by
      rw [headers]
      by_cases hheader : isHeader name = true
      · simp [hheader, isHeader_iff.mp hheader]
      · simp [hheader, mt isHeader_iff.mpr hheader]
    rw [hfront, mem_headers proper.2.2]
    constructor
    · rintro (⟨hheader, rfl⟩ | ⟨names, hnames, rfl⟩)
      · exact ⟨[name], (hasHeader_file proper).mpr (Or.inl ⟨rfl, hheader⟩), by simp⟩
      · exact ⟨names, (hasHeader_file proper).mpr (Or.inr hnames), rfl⟩
    · rintro ⟨names, hnames, rfl⟩
      rcases (hasHeader_file proper).mp hnames with ⟨rfl, hheader⟩ | hnames
      · exact Or.inl ⟨hheader, by simp⟩
      · exact Or.inr ⟨names, hnames, rfl⟩
  | folder name inner rest, proper, path => by
    rw [headers, List.mem_append, mem_headers proper.2.2.1, mem_headers proper.2.2.2]
    constructor
    · rintro (⟨below, hbelow, rfl⟩ | ⟨names, hnames, rfl⟩)
      · exact ⟨name :: below, (hasHeader_folder proper).mpr (Or.inl ⟨below, rfl, hbelow⟩),
          inside_inside proper.1 path hbelow.1.ne_nil⟩
      · exact ⟨names, (hasHeader_folder proper).mpr (Or.inr hnames), rfl⟩
    · rintro ⟨names, hnames, rfl⟩
      rcases (hasHeader_folder proper).mp hnames with ⟨below, rfl, hbelow⟩ | hnames
      · exact Or.inl ⟨below, hbelow, (inside_inside proper.1 path hbelow.1.ne_nil).symm⟩
      · exact Or.inr ⟨names, hnames, rfl⟩

theorem not_mem_headers_of_new {rest : Directory} {name : String} (proper : rest.Proper) (hname : IsName name)
    (hnew : rest.find? name = none) {path : String} {below : List String} (hbelow : ∀ name ∈ below, IsName name) :
    inside path ("/".intercalate (name :: below)) ∉ rest.headers path := by
  intro hmem
  obtain ⟨names, ⟨hfile, -⟩, heq⟩ := (mem_headers proper).mp hmem
  have hnames : name :: below = names :=
    inside_intercalate_inj (by simp) hfile.ne_nil (List.forall_mem_cons.mpr ⟨hname, hbelow⟩) hfile.proper heq
  obtain ⟨first, others, hfirst, -, hfound⟩ := hasFile_iff.mp hfile
  obtain ⟨rfl, -⟩ := List.cons.inj (hnames.trans hfirst)
  simp [hnew] at hfound

theorem nodup_headers : ∀ {dir : Directory}, dir.Proper → ∀ path, (dir.headers path).Nodup
  | empty, _, path => List.nodup_nil
  | file name rest, proper, path => by
    have hrest := nodup_headers proper.2.2 path
    rw [headers]
    split
    · have hfresh : inside path ("/".intercalate [name]) ∉ rest.headers path :=
        not_mem_headers_of_new proper.2.2 proper.1 proper.2.1 (by simp)
      rw [String.intercalate_singleton] at hfresh
      exact List.nodup_cons.mpr ⟨hfresh, hrest⟩
    · exact hrest
  | folder name inner rest, proper, path => by
    rw [headers, List.nodup_append]
    refine ⟨nodup_headers proper.2.2.1 _, nodup_headers proper.2.2.2 path, ?_⟩
    rintro f hf g hg rfl
    obtain ⟨below, ⟨hfile, -⟩, rfl⟩ := (mem_headers proper.2.2.1).mp hf
    rw [inside_inside proper.1 path hfile.ne_nil] at hg
    exact not_mem_headers_of_new proper.2.2.2 proper.1 proper.2.1 hfile.proper hg

end Directory

namespace Disk

variable {disk : Disk} {path : String}

theorem headers_pairwise {inner : Directory} (proper : inner.Proper) (h : disk.entry? path = some (.folder inner)) :
    (disk.headers path).Pairwise fun a b => a < b := by
  have hshape : disk.headers path = (inner.headers path).mergeSort fun a b => decide (a ≤ b) := by
    simp [headers, h]
  have hsorted : (disk.headers path).Pairwise (· ≤ ·) := by
    rw [hshape]
    exact List.pairwise_mergeSort' (· ≤ ·) _
  have hnodup : (disk.headers path).Nodup := by
    rw [hshape, (List.mergeSort_perm _ _).nodup_iff]
    exact Directory.nodup_headers proper path
  exact hsorted.imp₂ (fun _ _ => lt_of_le_of_ne) hnodup

theorem mem_headers {inner : Directory} (proper : inner.Proper) (h : disk.entry? path = some (.folder inner)) (f : String) :
    f ∈ disk.headers path ↔ ∃ names, (∀ name ∈ names, IsName name) ∧ (∃ name ∈ names.getLast?, HeaderName name) ∧
      f = inside path ("/".intercalate names) ∧ disk.isFile f = true := by
  have hshape : f ∈ disk.headers path ↔ f ∈ inner.headers path := by simp [headers, h]
  rw [hshape, Directory.mem_headers proper]
  constructor
  · rintro ⟨names, ⟨hfile, hheader⟩, rfl⟩
    refine ⟨names, hfile.proper, hheader, rfl, ?_⟩
    rw [isFile, entry?_inside h hfile.ne_nil hfile.proper, hfile.leads]
    rfl
  · rintro ⟨names, hnames, hheader, rfl, hfile⟩
    have hne : names ≠ [] := by
      rintro rfl
      simp at hheader
    rw [isFile, entry?_inside h hne hnames, beq_iff_eq] at hfile
    exact ⟨names, ⟨⟨hnames, hfile⟩, hheader⟩, rfl⟩

theorem headers_of_file (h : disk.isFile path = true) :
    ∃ name, (segments path).getLast? = some name ∧ disk.headers path = if HeaderName name then [path] else [] := by
  have hne : segments path ≠ [] := by simp [segments, segmentsFrom_ne_nil]
  have hlast := List.getLast?_eq_some_getLast hne
  have hentry : disk.entry? path = some .file := by simpa [isFile] using h
  refine ⟨_, hlast, ?_⟩
  simp only [headers, hentry, isHeader_iff, headerName_last_segment hlast]

end Disk

/-- Searching a folder finds the headers below it, each once and in order; a file is found if it is a header. -/
theorem headers_found_exactly (disk : Disk) (proper : disk.root.Proper) (path : String) :
    (disk.isFolder path = true →
      (disk.headers path).Pairwise (fun a b => a < b) ∧
        ∀ f, f ∈ disk.headers path ↔ ∃ names, (∀ name ∈ names, IsName name) ∧
          (∃ name ∈ names.getLast?, HeaderName name) ∧ f = inside path ("/".intercalate names) ∧
          disk.isFile f = true) ∧
      (disk.isFile path = true →
        ∃ name, (segments path).getLast? = some name ∧ disk.headers path = if HeaderName name then [path] else []) ∧
      (disk.hasPath path = false → disk.headers path = []) := by
  refine ⟨?_, Disk.headers_of_file, ?_⟩
  · intro hfolder
    obtain ⟨inner, hentry⟩ : ∃ inner, disk.entry? path = some (.folder inner) := by
      unfold Disk.isFolder at hfolder
      split at hfolder
      · rename_i inner hentry
        exact ⟨inner, hentry⟩
      · cases hfolder
    have hinner := Disk.proper_of_folder proper hentry
    exact ⟨Disk.headers_pairwise hinner hentry, Disk.mem_headers hinner hentry⟩
  · intro hnone
    have hentry : disk.entry? path = none := by simpa [Disk.hasPath] using hnone
    simp [Disk.headers, hentry]

namespace WorkingTree

-- the files `b.h`, `notes.txt` and `old.h/k.hpp` in the working directory `/p`
def disk : Disk where
  root := .folder "p" (.file "notes.txt" (.folder "old.h" (.file "k.hpp" .empty) (.file "b.h" .empty))) .empty
  base := "/p"

end WorkingTree

open WorkingTree in
theorem headers_of_working_directory :
    disk.root.Proper ∧ (disk.headers "old.h/..").Pairwise (fun a b => a < b) ∧
      "old.h/../b.h" ∈ disk.headers "old.h/.." ∧ "old.h/../old.h/k.hpp" ∈ disk.headers "old.h/.." ∧
      disk.headers "/p//b.h" = ["/p//b.h"] ∧ disk.headers "b.h/" = [] := by
  have hproper : disk.root.Proper := by decide
  obtain ⟨hfolder, -, -⟩ := headers_found_exactly disk hproper "old.h/.."
  obtain ⟨-, hfile, -⟩ := headers_found_exactly disk hproper "/p//b.h"
  obtain ⟨-, -, hnone⟩ := headers_found_exactly disk hproper "b.h/"
  obtain ⟨hsorted, hfound⟩ := hfolder (by decide)
  refine ⟨hproper, hsorted, ?_, ?_, ?_, hnone (by decide)⟩
  · exact (hfound _).mpr ⟨["b.h"], by decide, ⟨"b.h", rfl, by decide⟩, by decide, by decide⟩
  · exact (hfound _).mpr ⟨["old.h", "k.hpp"], by decide, ⟨"k.hpp", rfl, by decide⟩, by decide, by decide⟩
  · obtain ⟨name, hname, hheaders⟩ := hfile (by decide)
    have hlast : name = "b.h" := by simpa using hname.symm.trans (show (segments "/p//b.h").getLast? = some "b.h" by decide)
    rw [hheaders, hlast, if_pos (by decide)]

end SymbolIndex
