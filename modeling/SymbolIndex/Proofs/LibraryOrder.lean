import Mathlib.Data.Finset.Basic
import Mathlib.Data.List.Sort
import Mathlib.Data.String.Basic
import SymbolIndex.Frontend.Library

/-!
# The order of installed libraries

Files that match a pattern are tried in decreasing order of their paths as text. Where the paths differ in a version
number only, this is the order of the numbers as decimal texts: numbers of equally many digits come in numeric order,
but 9 comes before 10. The file chosen is the first of the list.
-/

namespace SymbolIndex

/-! ## Lists without repetition -/

theorem appendNew_spec : ∀ (more found : List String), found.Nodup →
    (appendNew found more).Nodup ∧ (∃ kept, kept.Sublist more ∧ appendNew found more = found ++ kept) ∧
      ∀ file, file ∈ appendNew found more ↔ file ∈ found ∨ file ∈ more
  | [], found, h => ⟨h, ⟨[], by simp [appendNew]⟩, by simp [appendNew]⟩
  | file :: more, found, h => by
    by_cases hold : file ∈ found
    · have hstep : appendNew found (file :: more) = appendNew found more := by simp [appendNew, hold]
      obtain ⟨hnodup, ⟨kept, hkept, hshape⟩, hmem⟩ := appendNew_spec more found h
      rw [hstep]
      refine ⟨hnodup, ⟨kept, hkept.cons file, hshape⟩, ?_⟩
      intro other
      rw [hmem, List.mem_cons]
      by_cases hother : other = file
      · simp [hother, hold]
      · simp [hother]
    · have hstep : appendNew found (file :: more) = appendNew (found ++ [file]) more := by simp [appendNew, hold]
      have hnew : (found ++ [file]).Nodup := by
        rw [List.nodup_append]
        refine ⟨h, by simp, ?_⟩
        rintro a ha b hb rfl
        exact hold (List.mem_singleton.mp hb ▸ ha)
      obtain ⟨hnodup, ⟨kept, hkept, hshape⟩, hmem⟩ := appendNew_spec more (found ++ [file]) hnew
      rw [hstep]
      refine ⟨hnodup, ⟨file :: kept, hkept.cons_cons file, ?_⟩, ?_⟩
      · rw [hshape, List.append_assoc, List.singleton_append]
      · intro other
        rw [hmem]
        simp [or_assoc]

theorem matchingFiles_pairwise (files : List String) (pattern : String) :
    (matchingFiles files pattern).Pairwise fun a b => b ≤ a :=
  List.pairwise_mergeSort' (· ≥ ·) _

theorem mem_matchingFiles {files : List String} {pattern file : String} :
    file ∈ matchingFiles files pattern ↔ file ∈ files ∧ matchesPattern pattern.toList file.toList = true := by
  simp [matchingFiles]

theorem matchingFiles_eq_nil {files : List String} {pattern : String}
    (h : ∀ file ∈ files, matchesPattern pattern.toList file.toList = false) : matchingFiles files pattern = [] := by
  rw [List.eq_nil_iff_forall_not_mem]
  intro file hfile
  obtain ⟨hmem, hmatch⟩ := mem_matchingFiles.mp hfile
  rw [h file hmem] at hmatch
  cases hmatch

theorem appendNew_matchingFiles (files : List String) (pattern : String) :
    (appendNew [] (matchingFiles files pattern)).Pairwise (fun a b => b < a) ∧
      ∀ file, file ∈ appendNew [] (matchingFiles files pattern) ↔ file ∈ matchingFiles files pattern := by
  obtain ⟨hnodup, ⟨kept, hkept, hshape⟩, hmem⟩ := appendNew_spec (matchingFiles files pattern) [] List.nodup_nil
  rw [List.nil_append] at hshape
  constructor
  · rw [hshape] at hnodup ⊢
    have hsorted := (matchingFiles_pairwise files pattern).sublist hkept
    exact hsorted.imp₂ (fun a b hle hne => lt_of_le_of_ne hle hne.symm) hnodup
  · simpa using hmem

/-! ## Version numbers as text -/

def versionFile (version : Nat) : String := "/usr/lib/llvm-" ++ toString version ++ "/lib/libclang.so"

theorem digits_toDigits (n : Nat) : ∀ c ∈ Nat.toDigits 10 n, c.isDigit = true := by
  intro c hc
  exact Nat.isDigit_of_mem_toDigits (by decide) (by decide) hc

/-- Behind the shorter of two numbers stands a slash, which comes before every digit. -/
theorem digits_append_lt {a b rest : List Char} (hb : ∀ c ∈ b, c.isDigit = true) (h : a < b) :
    a ++ '/' :: rest < b ++ '/' :: rest := by
  induction a generalizing b with
  | nil =>
    cases b with
    | nil => exact absurd h (List.lt_irrefl _)
    | cons d b =>
      have hd := Char.isDigit_iff_toNat.mp (hb d (List.mem_cons_self ..))
      have hslash : '/' < d := Nat.lt_of_lt_of_le (by decide) hd.1
      exact List.cons_lt_cons_iff.mpr (Or.inl hslash)
  | cons c a ih =>
    cases b with
    | nil => simp at h
    | cons d b =>
      rw [List.forall_mem_cons] at hb
      rw [List.cons_append, List.cons_append, List.cons_lt_cons_iff]
      rcases List.cons_lt_cons_iff.mp h with hlt | ⟨rfl, hlt⟩
      · exact Or.inl hlt
      · exact Or.inr ⟨rfl, ih hb.2 hlt⟩

theorem toList_versionFile (version : Nat) :
    (versionFile version).toList =
      "/usr/lib/llvm-".toList ++ (Nat.toDigits 10 version ++ '/' :: "lib/libclang.so".toList) := by
  -- with the two literals as variables, since rewriting would unfold them character by character
  have hshape : ∀ front back : String, (front ++ toString version ++ back).toList =
      front.toList ++ (Nat.toDigits 10 version ++ back.toList) := by
    intro front back
    rw [String.toList_append, String.toList_append, Nat.toString_eq_repr, Nat.toList_repr, List.append_assoc]
  exact hshape "/usr/lib/llvm-" "/lib/libclang.so"

theorem toString_lt_iff {m n : Nat} : toString m < toString n ↔ Nat.toDigits 10 m < Nat.toDigits 10 n := by
  rw [String.lt_iff_toList_lt, Nat.toString_eq_repr, Nat.toString_eq_repr, Nat.toList_repr, Nat.toList_repr]

theorem versionFile_lt {m n : Nat} (h : toString m < toString n) : versionFile m < versionFile n := by
  rw [toString_lt_iff] at h
  rw [String.lt_iff_toList_lt, toList_versionFile, toList_versionFile]
  exact List.append_left_lt (digits_append_lt (digits_toDigits n) h)

theorem versionFile_injective : Function.Injective versionFile := by
  intro m n h
  rw [← String.toList_inj, toList_versionFile, toList_versionFile] at h
  have hdigits := List.append_cancel_right (List.append_cancel_left h)
  rw [← Nat.ofDigitChars_ten_toDigits (n := m), hdigits, Nat.ofDigitChars_ten_toDigits]

theorem versionFile_lt_iff {m n : Nat} : versionFile m < versionFile n ↔ toString m < toString n := by
  constructor
  · intro h
    rcases lt_trichotomy (toString m) (toString n) with hlt | heq | hgt
    · exact hlt
    · have hsame : versionFile m = versionFile n :=
        congrArg (fun text => "/usr/lib/llvm-" ++ text ++ "/lib/libclang.so") heq
      exact absurd hsame h.ne
    · exact absurd (versionFile_lt hgt) (lt_asymm h)
  · exact versionFile_lt

theorem ofDigitChars_lt : ∀ {a b : List Char}, a.length = b.length → (∀ c ∈ a, c.isDigit = true) → ∀ {m n : Nat},
    m < n → Nat.ofDigitChars 10 a m < Nat.ofDigitChars 10 b n
  | [], [], _, _, m, n, h => by simpa using h
  | c :: a, d :: b, hlen, ha, m, n, h => by
    rw [List.forall_mem_cons] at ha
    have hc := Char.isDigit_iff_toNat.mp ha.1
    rw [Nat.ofDigitChars_cons, Nat.ofDigitChars_cons]
    apply ofDigitChars_lt (by simpa using hlen) ha.2
    have hdigits : '0'.toNat = 48 ∧ '9'.toNat = 57 := by decide
    omega

theorem ofDigitChars_lt_of_lt {a b : List Char} (hlen : a.length = b.length) (ha : ∀ c ∈ a, c.isDigit = true)
    (hb : ∀ c ∈ b, c.isDigit = true) (h : a < b) (n : Nat) : Nat.ofDigitChars 10 a n < Nat.ofDigitChars 10 b n := by
  induction a generalizing b n with
  | nil =>
    obtain rfl : b = [] := List.eq_nil_of_length_eq_zero hlen.symm
    exact absurd h (List.lt_irrefl _)
  | cons c a ih =>
    cases b with
    | nil => simp at hlen
    | cons d b =>
      rw [List.forall_mem_cons] at ha hb
      have htail : a.length = b.length := by simpa using hlen
      rw [Nat.ofDigitChars_cons, Nat.ofDigitChars_cons]
      rcases List.cons_lt_cons_iff.mp h with hlt | ⟨rfl, hlt⟩
      · apply ofDigitChars_lt htail ha.2
        have hc := Char.isDigit_iff_toNat.mp ha.1
        have hlt : c.toNat < d.toNat := hlt
        omega
      · exact ih htail ha.2 hb.2 hlt _

theorem lt_of_toString_lt {m n : Nat} (hlen : (toString m).length = (toString n).length)
    (h : toString m < toString n) : m < n := by
  rw [Nat.toString_eq_repr, Nat.toString_eq_repr, ← String.length_toList, ← String.length_toList, Nat.toList_repr,
    Nat.toList_repr] at hlen
  have hvalue := ofDigitChars_lt_of_lt hlen (digits_toDigits m) (digits_toDigits n) (toString_lt_iff.mp h) 0
  rwa [Nat.ofDigitChars_ten_toDigits, Nat.ofDigitChars_ten_toDigits] at hvalue

/-! ## Matching -/

theorem mem_afterStar {a : List Char} (b : List Char) (h : '/' ∉ a) : b ∈ afterStar (a ++ b) := by
  induction a with
  | nil =>
    cases b with
    | nil => simp [afterStar]
    | cons c b =>
      rw [List.nil_append, afterStar]
      split <;> simp
  | cons c a ih =>
    obtain ⟨hc, ha⟩ := not_or.mp (mt List.mem_cons.mpr h)
    have hc : ¬ (c == '/') = true := by simpa using fun e : c = '/' => hc e.symm
    rw [List.cons_append, afterStar, if_neg hc]
    exact List.mem_cons_of_mem _ (ih ha)

theorem matchesPattern_star {pattern a b : List Char} (ha : '/' ∉ a) (hb : matchesPattern pattern b = true) :
    matchesPattern ('*' :: pattern) (a ++ b) = true := by
  rw [matchesPattern, List.any_eq_true]
  exact ⟨b, mem_afterStar b ha, hb⟩

theorem versionFile_matches (version : Nat) :
    matchesPattern "/usr/lib/llvm-*/lib/libclang.so*".toList (versionFile version).toList = true := by
  have hflat : '/' ∉ Nat.toDigits 10 version := by
    intro hslash
    exact absurd (digits_toDigits version _ hslash) (by decide)
  have hrest : matchesPattern "/lib/libclang.so*".toList ('/' :: "lib/libclang.so".toList) = true := by decide
  have hstar : matchesPattern ('*' :: "/lib/libclang.so*".toList) _ = true := matchesPattern_star hflat hrest
  rw [toList_versionFile]
  exact hstar

theorem versionFile_mismatch {pattern : String} (version : Nat)
    (h : ∀ rest, matchesPattern pattern.toList ("/usr/lib/llvm-".toList ++ rest) = false) :
    matchesPattern pattern.toList (versionFile version).toList = false := by
  rw [toList_versionFile]
  exact h _

/-- Of the places that are searched, installed versions stand in the first only. -/
theorem libraryFiles_versions {files : List String} (h : ∀ file ∈ files, ∃ version, file = versionFile version) :
    libraryFiles .linux files = appendNew [] (matchingFiles files "/usr/lib/llvm-*/lib/libclang.so*") := by
  have hnone : ∀ pattern : String,
      (∀ rest, matchesPattern pattern.toList ("/usr/lib/llvm-".toList ++ rest) = false) →
        matchingFiles files pattern = [] := by
    intro pattern hpattern
    apply matchingFiles_eq_nil
    intro file hfile
    obtain ⟨version, rfl⟩ := h file hfile
    exact versionFile_mismatch version hpattern
  simp only [libraryFiles, libraryPatterns, List.foldl_cons, List.foldl_nil]
  rw [hnone "/usr/lib/x86_64-linux-gnu/libclang-*.so*" fun _ => rfl, hnone "/usr/lib64/libclang.so" fun _ => rfl,
    hnone "/usr/lib/libclang.so" fun _ => rfl, hnone "/usr/local/lib/libclang.so" fun _ => rfl]
  rfl

/-! ## Installed versions in order -/

section
variable {files : List String} (h : ∀ file ∈ files, ∃ version, file = versionFile version)
include h

theorem libraryFiles_pairwise : (libraryFiles .linux files).Pairwise fun a b => b < a := by
  rw [libraryFiles_versions h]
  exact (appendNew_matchingFiles files _).1

theorem mem_libraryFiles (file : String) : file ∈ libraryFiles .linux files ↔ file ∈ files := by
  rw [libraryFiles_versions h, (appendNew_matchingFiles files _).2, mem_matchingFiles, and_iff_left_iff_imp]
  intro hfile
  obtain ⟨version, rfl⟩ := h file hfile
  exact versionFile_matches version

theorem exists_order : ∃ order : List Nat, libraryFiles .linux files = order.map versionFile := by
  have hrange : libraryFiles .linux files ∈ Set.range (List.map versionFile) := by
    rw [Set.range_list_map]
    intro file hfile
    obtain ⟨version, rfl⟩ := h file ((mem_libraryFiles h file).mp hfile)
    exact Set.mem_range_self version
  obtain ⟨order, horder⟩ := hrange
  exact ⟨order, horder.symm⟩

end

theorem versionFiles_only {files : List String} {p : Nat → Prop}
    (h : ∀ file, file ∈ files ↔ ∃ version, p version ∧ file = versionFile version) :
    ∀ file ∈ files, ∃ version, file = versionFile version := by
  intro file hfile
  obtain ⟨version, -, hname⟩ := (h file).mp hfile
  exact ⟨version, hname⟩

theorem libraryFiles_of_order {files : List String} {order : List Nat}
    (sorted : order.Pairwise fun a b => toString b < toString a)
    (h : ∀ file, file ∈ files ↔ ∃ version ∈ order, file = versionFile version) :
    libraryFiles .linux files = order.map versionFile := by
  have hversions := versionFiles_only h
  apply List.Pairwise.eq_of_mem_iff (libraryFiles_pairwise hversions)
  · rw [List.pairwise_map]
    exact sorted.imp versionFile_lt
  · intro file
    rw [mem_libraryFiles hversions, h]
    simp [eq_comm]

theorem decreasing_iff {order : List Nat} (sorted : order.Pairwise fun a b => toString b < toString a) :
    order.Pairwise (fun a b => b < a) ↔ ∀ a ∈ order, ∀ b ∈ order, a < b → toString a < toString b := by
  constructor
  · intro hdecreasing a ha b hb hab
    obtain ⟨i, hi, rfl⟩ := List.getElem_of_mem ha
    obtain ⟨j, hj, rfl⟩ := List.getElem_of_mem hb
    rcases lt_trichotomy i j with hij | rfl | hji
    · exact absurd (List.pairwise_iff_getElem.mp hdecreasing i j hi hj hij) (lt_asymm hab)
    · exact absurd hab (lt_irrefl _)
    · exact List.pairwise_iff_getElem.mp sorted j i hj hi hji
  · intro hagree
    apply sorted.imp_of_mem
    intro a b ha hb htext
    rcases lt_trichotomy a b with hlt | heq | hgt
    · exact absurd htext (lt_asymm (hagree a ha b hb hlt))
    · rw [heq] at htext
      exact absurd htext (lt_irrefl _)
    · exact hgt

/-- Installed versions are listed by their texts, the last first, and the first of the list is chosen when no library
loads by default. -/
theorem versions_listed_by_text (versions : Finset Nat) (files : List String)
    (h : ∀ file, file ∈ files ↔ ∃ version ∈ versions, file = versionFile version) :
    ∃ order : List Nat, libraryFiles .linux files = order.map versionFile ∧
      (∀ version, version ∈ order ↔ version ∈ versions) ∧
      order.Pairwise (fun a b => toString b < toString a) ∧
      order.Pairwise (fun a b => (toString a).length = (toString b).length → b < a) ∧
      (order.Pairwise (fun a b => b < a) ↔
        ∀ a ∈ versions, ∀ b ∈ versions, a < b → toString a < toString b) ∧
      ∀ loads : Option String → Bool, loads none = false →
        (({} : LibraryChoice).available loads (libraryFiles .linux files)).1.file = order.head?.map versionFile := by
  have hversions := versionFiles_only h
  obtain ⟨order, hfiles⟩ := exists_order hversions
  have hmem : ∀ version, version ∈ order ↔ version ∈ versions := by
    intro version
    have hlisted := mem_libraryFiles hversions (versionFile version)
    rw [hfiles, List.mem_map_of_injective versionFile_injective, h] at hlisted
    rw [hlisted]
    constructor
    · rintro ⟨other, hother, hname⟩
      exact versionFile_injective hname ▸ hother
    · exact fun hversion => ⟨version, hversion, rfl⟩
  have hsorted : order.Pairwise fun a b => toString b < toString a := by
    have hpairwise := libraryFiles_pairwise hversions
    rw [hfiles, List.pairwise_map] at hpairwise
    exact hpairwise.imp versionFile_lt_iff.mp
  refine ⟨order, hfiles, hmem, hsorted, ?_, ?_, ?_⟩
  · apply hsorted.imp
    intro a b htext hlen
    exact lt_of_toString_lt hlen.symm htext
  · rw [decreasing_iff hsorted]
    simp only [hmem]
  · intro loads hdefault
    rw [hfiles]
    cases order <;> simp [LibraryChoice.available, hdefault]

-- versions of two digits in numeric order, and one of one digit in front of them
theorem versions_of_one_and_two_digits :
    (∀ file, file ∈ [versionFile 9, versionFile 10, versionFile 14] ↔
      ∃ version ∈ ({9, 10, 14} : Finset Nat), file = versionFile version) ∧
      libraryFiles .linux [versionFile 9, versionFile 10, versionFile 14] = [9, 14, 10].map versionFile ∧
      (({} : LibraryChoice).available (fun _ => false)
        (libraryFiles .linux [versionFile 9, versionFile 10, versionFile 14])).1.file = some (versionFile 9) := by
  have hfiles : ∀ file, file ∈ [versionFile 9, versionFile 10, versionFile 14] ↔
      ∃ version ∈ ({9, 10, 14} : Finset Nat), file = versionFile version := by simp
  obtain ⟨order, hlisted, -, -, -, -, hchosen⟩ := versions_listed_by_text {9, 10, 14} _ hfiles
  have horder : [9, 14, 10] = order := by
    have hsame : libraryFiles .linux [versionFile 9, versionFile 10, versionFile 14] = [9, 14, 10].map versionFile := by
      apply libraryFiles_of_order (by decide)
      intro file
      simp [or_comm]
    exact List.map_injective_iff.mpr versionFile_injective (hsame.symm.trans hlisted)
  subst horder
  exact ⟨hfiles, hlisted, hchosen (fun _ => false) rfl⟩

theorem older_version_chosen :
    libraryFiles .linux [versionFile 9, versionFile 10] = [versionFile 9, versionFile 10] ∧
      (({} : LibraryChoice).available Option.isSome (libraryFiles .linux [versionFile 9, versionFile 10])).1.file =
        some (versionFile 9) ∧
      ¬ ∃ order : List Nat, libraryFiles .linux [versionFile 9, versionFile 10] = order.map versionFile ∧
        order.Pairwise fun a b => b < a := by
  have hfiles : libraryFiles .linux [versionFile 9, versionFile 10] = [9, 10].map versionFile :=
    libraryFiles_of_order (by decide) (by simp)
  rw [hfiles]
  refine ⟨rfl, rfl, ?_⟩
  rintro ⟨order, horder, hdecreasing⟩
  rw [← List.map_injective_iff.mpr versionFile_injective horder] at hdecreasing
  exact absurd hdecreasing (by decide)

end SymbolIndex
