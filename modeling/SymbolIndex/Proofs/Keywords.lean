import SymbolIndex.TypeRef.Spelling

/-!
# Spellings without keywords

Stripping a spelling leaves pieces between single spaces, and no piece is a type keyword. A stripped
spelling never starts like one that `const` was put in front of.
-/

namespace SymbolIndex

namespace Text

theorem blanks_apart_from_letters : ∀ b ∈ blankRanges, ∀ r ∈ letterRanges, b.2 < r.1 ∨ r.2 < b.1 := by
  decide +kernel

theorem ascii_blanks_apart_from_words : ∀ n < 0x80, (isWord (Char.ofNat n) && isBlank (Char.ofNat n)) = false := by
  decide +kernel

theorem isBlank_of_isWord {c : Char} (h : isWord c = true) : isBlank c = false := by
  by_cases hsmall : c.toNat < 0x80
  · have hapart := ascii_blanks_apart_from_words c.toNat hsmall
    rw [Char.ofNat_toNat, h] at hapart
    simpa using hapart
  · rw [Bool.eq_false_iff]
    intro hblank
    obtain ⟨b, hb, hlo, hhi⟩ : ∃ b ∈ blankRanges, b.1 ≤ c.toNat ∧ c.toNat ≤ b.2 := by
      simpa [isBlank, inRanges] using hblank
    obtain ⟨r, hr, hrlo, hrhi⟩ : ∃ r ∈ letterRanges, r.1 ≤ c.toNat ∧ c.toNat ≤ r.2 := by
      simpa [isWord, hsmall, inRanges] using h
    have := blanks_apart_from_letters b hb r hr
    omega

theorem runsFrom_append {p : Char → Bool} {word : List Char} (rest : List Char) (h : ∀ c ∈ word, p c = true) :
    ∀ run, runsFrom p run (word ++ rest) = runsFrom p (run ++ word) rest := by
  induction word with
  | nil => simp
  | cons c word ih =>
    intro run
    have hc := h c (List.mem_cons_self ..)
    rw [List.cons_append, runsFrom, if_pos hc, ih fun d hd => h d (List.mem_cons_of_mem _ hd)]
    simp

theorem runsFrom_space (run rest : List Char) :
    runsFrom (fun c => !isBlank c) run (' ' :: rest) = finish run ++ runsFrom (fun c => !isBlank c) [] rest := by
  have hspace : isBlank ' ' = true := by decide
  rw [runsFrom, hspace]
  rfl

theorem mem_finish {run piece : List Char} : piece ∈ finish run ↔ piece = run ∧ run ≠ [] := by
  unfold finish
  cases run <;> simp

theorem forall_mem_of_runsFrom {p : Char → Bool} {s : List Char} : ∀ {run : List Char}, (∀ c ∈ run, p c = true) →
    ∀ piece ∈ runsFrom p run s, ∀ c ∈ piece, p c = true := by
  induction s with
  | nil =>
    intro run hrun piece hm
    rw [(mem_finish.mp hm).1]
    exact hrun
  | cons d s ih =>
    intro run hrun piece hm
    unfold runsFrom at hm
    split at hm
    · rename_i hd
      refine ih ?_ piece hm
      intro c hc
      rcases List.mem_append.mp hc with hc | hc
      · exact hrun c hc
      · rw [List.mem_singleton.mp hc]
        exact hd
    · rcases List.mem_append.mp hm with hm | hm
      · rw [(mem_finish.mp hm).1]
        exact hrun
      · exact ih (by simp) piece hm

end Text

open Text

theorem typeKeywords_words {keyword : List Char} (h : keyword ∈ typeKeywords) : ∀ c ∈ keyword, isWord c = true := by
  have hall : typeKeywords.all (·.all isWord) = true := by decide
  exact List.all_eq_true.mp (List.all_eq_true.mp hall keyword h)

/-- A run that the current word is not the start of. -/
def Broken (run : List Char) : Prop := run = [] ∨ ∃ c ∈ run, isWord c = false

theorem Broken.not_keyword {run word : List Char} (h : Broken run) (hw : word ∉ typeKeywords) :
    run ++ word ∉ typeKeywords := by
  rcases h with rfl | ⟨c, hc, hword⟩
  · exact hw
  · intro hm
    have := typeKeywords_words hm c (List.mem_append_left _ hc)
    rw [hword] at this
    cases this

theorem Broken.self_not_keyword {run : List Char} (h : Broken run) : run ∉ typeKeywords := by
  have hself : run ++ [] ∉ typeKeywords := h.not_keyword (by decide)
  rwa [List.append_nil] at hself

theorem not_keyword_of_finish {run : List Char} (h : run ∉ typeKeywords) : ∀ piece ∈ finish run, piece ∉ typeKeywords := by
  intro piece hm
  rw [(mem_finish.mp hm).1]
  exact h

/-- No piece of a masked text is a keyword: a word that was kept is none, and any other piece has a
character that belongs to no word. -/
theorem pieces_of_masked (s : List Char) : ∀ {word run : List Char}, (∀ c ∈ word, isWord c = true) → Broken run →
    ∀ piece ∈ runsFrom (fun c => !isBlank c) run (maskKeywordsFrom word s), piece ∉ typeKeywords := by
  have hunblank : ∀ {word : List Char}, (∀ c ∈ word, isWord c = true) → ∀ c ∈ word, (!isBlank c) = true := by
    intro word hw c hc
    simp [isBlank_of_isWord (hw c hc)]
  induction s with
  | nil =>
    intro word run hw hrun piece hm
    unfold maskKeywordsFrom keepWord at hm
    split at hm
    · rw [runsFrom_space] at hm
      have hm : piece ∈ finish run := by simpa [runsFrom, finish] using hm
      exact not_keyword_of_finish hrun.self_not_keyword piece hm
    · rename_i hkeep
      rw [← List.append_nil word, runsFrom_append [] (hunblank hw)] at hm
      exact not_keyword_of_finish (hrun.not_keyword (by simpa using hkeep)) piece hm
  | cons c s ih =>
    intro word run hw hrun piece hm
    unfold maskKeywordsFrom at hm
    by_cases hc : isWord c = true
    · rw [if_pos hc] at hm
      refine ih ?_ hrun piece hm
      intro d hd
      rcases List.mem_append.mp hd with hd | hd
      · exact hw d hd
      · rw [List.mem_singleton.mp hd]
        exact hc
    · rw [if_neg hc] at hm
      -- the character ends the word; it ends the piece too or becomes part of it
      have hafter : ∀ run', run' ∉ typeKeywords →
          ∀ piece ∈ runsFrom (fun c => !isBlank c) run' (c :: maskKeywordsFrom [] s), piece ∉ typeKeywords := by
        intro run' hrun' piece hm
        unfold runsFrom at hm
        split at hm
        · refine ih (by simp) (Or.inr ⟨c, ?_, by simpa using hc⟩) piece hm
          simp
        · rcases List.mem_append.mp hm with hm | hm
          · exact not_keyword_of_finish hrun' piece hm
          · exact ih (by simp) (Or.inl rfl) piece hm
      unfold keepWord at hm
      split at hm
      · rw [List.singleton_append, runsFrom_space] at hm
        rcases List.mem_append.mp hm with hm | hm
        · exact not_keyword_of_finish hrun.self_not_keyword piece hm
        · exact hafter [] (by decide) piece hm
      · rename_i hkeep
        rw [runsFrom_append _ (hunblank hw)] at hm
        exact hafter _ (hrun.not_keyword (by simpa using hkeep)) piece hm

def Unqualified (text : String) : Prop := ¬ "const ".toList <+: text.toList

instance (text : String) : Decidable (Unqualified text) := inferInstanceAs (Decidable (¬ _ <+: _))

theorem stripKeywords_unqualified (text : String) : Unqualified (stripKeywords text) := by
  have hkeywords : ∀ piece ∈ runsFrom (fun c => !isBlank c) [] (maskKeywordsFrom [] text.toList),
      piece ∉ typeKeywords := pieces_of_masked text.toList (by simp) (Or.inl rfl)
  have hunblank : ∀ piece ∈ runsFrom (fun c => !isBlank c) [] (maskKeywordsFrom [] text.toList),
      ∀ c ∈ piece, (!isBlank c) = true := forall_mem_of_runsFrom (by simp)
  unfold Unqualified stripKeywords stripKeywordChars pieces runs
  generalize runsFrom (fun c => !isBlank c) [] (maskKeywordsFrom [] text.toList) = found at *
  rintro ⟨rest, hrest⟩
  replace hrest : "const ".toList ++ rest = [' '].intercalate found := by rw [hrest, String.toList_ofList]
  cases found with
  | nil => simp at hrest
  | cons piece others =>
    -- the first piece goes up to the first space, so it is the keyword
    have hpiece : ∀ c ∈ piece, (c != ' ') = true := by
      intro c hc
      have := hunblank piece (List.mem_cons_self ..) c hc
      rw [bne_iff_ne]
      rintro rfl
      revert this
      decide
    have hstart : ([' '].intercalate (piece :: others)).takeWhile (· != ' ') = piece := by
      cases others with
      | nil =>
        rw [show [' '].intercalate [piece] = piece ++ [] by simp, List.takeWhile_append_of_pos hpiece]
        simp
      | cons other others =>
        rw [List.intercalate_cons_cons, List.append_assoc, List.takeWhile_append_of_pos hpiece]
        simp
    rw [← hrest] at hstart
    have hword : "const".toList = piece := hstart
    exact hkeywords piece (List.mem_cons_self ..) (by rw [← hword]; decide)

end SymbolIndex
