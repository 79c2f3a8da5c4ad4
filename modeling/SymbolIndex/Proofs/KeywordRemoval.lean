import Mathlib.Data.List.SplitBy
import SymbolIndex.Proofs.Lists
import SymbolIndex.Proofs.Spacing

/-!
# What stripping keywords removes

A text is a sequence of stretches, words in turn with what stands between words. Masking puts a space in place of
each stretch that is a type keyword, so the words around it stay apart, and squeezing then changes blanks only. What
is left has the other words, all other characters and single spaces between them; stripping it again changes nothing.
-/

namespace SymbolIndex

namespace Text

/-! ## Stretches -/

/-- The text cut wherever a word starts or ends. -/
def stretches (s : List Char) : List (List Char) := s.splitBy fun c d => isWord c == isWord d

/-- Stretches side by side: none is empty, and no word goes on from one into the next. -/
structure Stretched (parts : List (List Char)) : Prop where
  nonempty : ∀ part ∈ parts, part ≠ []
  parted : parts.IsChain (Parted isWord)

theorem Stretched.tail {part : List Char} {parts : List (List Char)} (h : Stretched (part :: parts)) :
    Stretched parts :=
  ⟨(List.forall_mem_cons.mp h.nonempty).2, h.parted.tail⟩

theorem Stretched.parted_flatten {part : List Char} {parts : List (List Char)} (h : Stretched (part :: parts)) :
    Parted isWord part parts.flatten := by
  cases parts with
  | nil => exact .of_head (by simp)
  | cons next parts =>
    apply Parted.append_right
    · exact (List.isChain_cons_cons.mp h.parted).1
    · intro hnext
      exact absurd hnext (h.nonempty next (by simp))

theorem words_flatten : ∀ {parts : List (List Char)}, Stretched parts → words parts.flatten = parts.flatMap words
  | [], _ => rfl
  | part :: parts, h => by
    rw [List.flatten_cons, words, runs_append h.parted_flatten, ← words, ← words, words_flatten h.tail,
      List.flatMap_cons]

theorem stretches_stretched (s : List Char) : Stretched (stretches s) where
  nonempty _ h := List.ne_nil_of_mem_splitBy h
  parted := by
    apply (List.isChain_getLast_head_splitBy _ s).imp
    rintro a b ⟨ha, hb, hapart⟩ c hc hword d hd
    rw [List.getLast_of_mem_getLast? hc, List.head_of_mem_head? hd] at hapart
    rw [hword] at hapart
    simpa using hapart

theorem flatten_stretches (s : List Char) : (stretches s).flatten = s := List.flatten_splitBy _ s

theorem stretch_uniform {s part : List Char} (h : part ∈ stretches s) :
    (∀ c ∈ part, isWord c = true) ∨ ∀ c ∈ part, isWord c = false := by
  have hchain : part.IsChain fun c d => isWord c = isWord d := by
    simpa using List.isChain_of_mem_splitBy h
  cases part with
  | nil => simp
  | cons c part =>
    have hsame := List.pairwise_cons.mp (List.isChain_iff_pairwise.mp hchain)
    cases hc : isWord c with
    | true =>
      left
      exact List.forall_mem_cons.mpr ⟨hc, fun d hd => (hsame.1 d hd).symm.trans hc⟩
    | false =>
      right
      exact List.forall_mem_cons.mpr ⟨hc, fun d hd => (hsame.1 d hd).symm.trans hc⟩

theorem words_of_stretch {s part : List Char} (h : part ∈ stretches s) :
    words part = if part.all isWord then [part] else [] := by
  have hne := (stretches_stretched s).nonempty part h
  rcases stretch_uniform h with hword | hnone
  · rw [if_pos (List.all_eq_true.mpr hword), words, runs_of_all hne hword]
  · obtain ⟨c, hc⟩ := List.exists_mem_of_ne_nil part hne
    have hnot : ¬ part.all isWord = true := by
      rw [List.all_eq_true]
      intro hall
      simpa [hnone c hc] using hall c hc
    rw [if_neg hnot, words, runs_of_none hnone]

theorem words_eq_stretches (s : List Char) : words s = (stretches s).filter fun part => part.all isWord := by
  conv => lhs; rw [← flatten_stretches s, words_flatten (stretches_stretched s)]
  exact flatMap_eq_filter fun _ => words_of_stretch

/-! ## Blanks -/

/-- Blanks stand in the text as single spaces between other characters only. -/
structure SingleSpaced (s : List Char) : Prop where
  space : ∀ c ∈ s, isBlank c = true → c = ' '
  single : s.IsChain fun c d => isBlank c = true → isBlank d = false
  head : ∀ c ∈ s.head?, isBlank c = false
  last : ∀ c ∈ s.getLast?, isBlank c = false

theorem singleSpaced_of_unblank {s : List Char} (h : ∀ c ∈ s, isBlank c = false) : SingleSpaced s where
  space c hc hblank := by simp [h c hc] at hblank
  single := by
    apply List.Pairwise.isChain
    exact List.pairwise_of_forall_mem_list fun _ _ d hd _ => h d hd
  head c hc := h c (List.mem_of_head? hc)
  last c hc := h c (List.mem_of_getLast? hc)

theorem SingleSpaced.append_space {a b : List Char} (ha : SingleSpaced a) (hb : SingleSpaced b) (hane : a ≠ [])
    (hbne : b ≠ []) : SingleSpaced (a ++ ' ' :: b) where
  space := by
    rw [List.forall_mem_append, List.forall_mem_cons]
    exact ⟨ha.space, fun _ => rfl, hb.space⟩
  single := by
    rw [List.isChain_append, List.isChain_cons]
    refine ⟨ha.single, ⟨fun d hd _ => hb.head d hd, hb.single⟩, ?_⟩
    intro c hc d _ hblank
    simp [ha.last c hc] at hblank
  head := by
    rw [List.head?_append_of_ne_nil _ hane]
    exact ha.head
  last := by
    rw [List.getLast?_append_of_ne_nil _ (by simp), List.getLast?_cons_of_ne_nil hbne]
    exact hb.last

theorem unblank_of_pieces {s piece : List Char} (h : piece ∈ pieces s) : ∀ c ∈ piece, isBlank c = false := by
  intro c hc
  simpa using forall_mem_of_runsFrom (by simp) piece h c hc

theorem ne_nil_of_runsFrom {p : Char → Bool} {s : List Char} : ∀ {run : List Char}, ∀ piece ∈ runsFrom p run s,
    piece ≠ [] := by
  induction s with
  | nil =>
    intro run piece h
    obtain ⟨rfl, hne⟩ := mem_finish.mp h
    exact hne
  | cons c s ih =>
    intro run piece h
    unfold runsFrom at h
    split at h
    · exact ih piece h
    · rcases List.mem_append.mp h with h | h
      · obtain ⟨rfl, hne⟩ := mem_finish.mp h
        exact hne
      · exact ih piece h

section
variable {parts : List (List Char)} (nonempty : ∀ part ∈ parts, part ≠ [])
  (unblank : ∀ part ∈ parts, ∀ c ∈ part, isBlank c = false)
include nonempty unblank

theorem singleSpaced_intercalate : SingleSpaced ([' '].intercalate parts) := by
  induction parts with
  | nil => exact singleSpaced_of_unblank (by simp)
  | cons part parts ih =>
    rw [List.forall_mem_cons] at nonempty unblank
    cases parts with
    | nil => simpa using singleSpaced_of_unblank unblank.1
    | cons next parts =>
      have hnext := nonempty.2 next (by simp)
      rw [List.intercalate_cons_cons, List.append_assoc]
      apply (singleSpaced_of_unblank unblank.1).append_space (ih nonempty.2 unblank.2) nonempty.1
      cases parts <;> simp [hnext]

theorem pieces_intercalate : pieces ([' '].intercalate parts) = parts := by
  induction parts with
  | nil => rfl
  | cons part parts ih =>
    rw [List.forall_mem_cons] at nonempty unblank
    have hpart : ∀ c ∈ part, (!isBlank c) = true := by simpa using unblank.1
    cases parts with
    | nil => simpa [pieces] using runs_of_all nonempty.1 hpart
    | cons next parts =>
      have hrest := ih nonempty.2 unblank.2
      rw [pieces, runs] at hrest
      rw [List.intercalate_cons_cons, List.append_assoc, pieces, runs, runsFrom_append _ hpart, List.singleton_append,
        runsFrom_space, hrest]
      simp [finish, nonempty.1]

end

theorem runsFrom_squeeze (s : List Char) : ∀ run, runsFrom isWord run (squeeze false s) = runsFrom isWord run s ∧
    runsFrom isWord run (squeeze true s) = finish run ++ runsFrom isWord [] s := by
  have hspace : isWord ' ' = false := by decide
  induction s with
  | nil => simp [squeeze, runsFrom, finish]
  | cons c s ih =>
    intro run
    rw [squeeze, squeeze]
    by_cases hc : isBlank c = true
    · have hword := isWord_of_isBlank hc
      have hnil : finish ([] : List Char) = [] := rfl
      simp [hc, hword, runsFrom, (ih run).2, hnil]
    · simp [hc, hspace, runsFrom, (ih _).1]

theorem blanks_append_trimStart (s : List Char) :
    ∃ blanks, (∀ c ∈ blanks, isBlank c = true) ∧ s = blanks ++ trimStart s :=
  ⟨s.takeWhile isBlank, List.all_eq_true.mp List.all_takeWhile, List.takeWhile_append_dropWhile.symm⟩

theorem words_intercalate_pieces (s : List Char) : words ([' '].intercalate (pieces s)) = words s := by
  obtain ⟨blanks, hblank, hshape⟩ := blanks_append_trimStart (squeeze true s)
  have hnone : runs isWord blanks = [] := runs_of_none fun c hc => isWord_of_isBlank (hblank c hc)
  have hsqueeze : words (squeeze true s) = words s := (runsFrom_squeeze s []).2
  rw [hshape, words, runs_append (.of_blank hblank), hnone, List.nil_append] at hsqueeze
  rw [intercalate_pieces, ← trimStart_squeeze]
  exact hsqueeze

theorem filter_intercalate_pieces (s : List Char) :
    ([' '].intercalate (pieces s)).filter (fun c => !isBlank c) = s.filter fun c => !isBlank c := by
  obtain ⟨blanks, hblank, hshape⟩ := blanks_append_trimStart (squeeze true s)
  have hnone : blanks.filter (fun c => !isBlank c) = [] := by simpa using hblank
  have hsame : ∀ c, (!isBlank c && c != ' ') = !isBlank c := by
    intro c
    by_cases hc : c = ' '
    · simp [hc, isBlank_space]
    · simp [hc]
  have hsqueeze := congrArg (List.filter fun c => !isBlank c) (filter_squeeze s true)
  simp only [List.filter_filter, hsame, Bool.and_self] at hsqueeze
  rw [hshape, List.filter_append, hnone, List.nil_append] at hsqueeze
  rw [intercalate_pieces, ← trimStart_squeeze]
  exact hsqueeze

end Text

open Text

/-! ## Keywords -/

theorem keepWord_of_mem {word : List Char} (h : word ∈ typeKeywords) : keepWord word = [' '] := by
  simp [keepWord, h]

theorem keepWord_of_not_mem {word : List Char} (h : word ∉ typeKeywords) : keepWord word = word := by
  simp [keepWord, h]

theorem maskKeywordsFrom_word : ∀ {s word : List Char}, (∀ c ∈ s, isWord c = true) →
    maskKeywordsFrom word s = keepWord (word ++ s)
  | [], word, _ => by rw [maskKeywordsFrom, List.append_nil]
  | c :: s, word, h => by
    rw [List.forall_mem_cons] at h
    rw [maskKeywordsFrom, if_pos h.1, maskKeywordsFrom_word h.2, ← List.append_cons]

theorem not_keyword_of_none {part : List Char} (hne : part ≠ []) (h : ∀ c ∈ part, isWord c = false) :
    part ∉ typeKeywords := by
  intro hm
  obtain ⟨c, hc⟩ := List.exists_mem_of_ne_nil part hne
  simpa [h c hc] using typeKeywords_words hm c hc

theorem mask_of_stretch {s part : List Char} (h : part ∈ stretches s) : maskKeywordsFrom [] part = keepWord part := by
  rcases stretch_uniform h with hword | hnone
  · exact maskKeywordsFrom_word hword
  · have hkept : ∀ word ∈ runsFrom isWord [] part, word ∉ typeKeywords := by
      rw [← runs, runs_of_none hnone]
      simp
    rw [maskKeywordsFrom_eq_self hkept, List.nil_append,
      keepWord_of_not_mem (not_keyword_of_none ((stretches_stretched s).nonempty part h) hnone)]

theorem mask_flatten : ∀ {parts : List (List Char)}, Stretched parts →
    maskKeywordsFrom [] parts.flatten = parts.flatMap (maskKeywordsFrom [])
  | [], _ => rfl
  | part :: parts, h => by
    have hparted : Parted isWord ([] ++ part) parts.flatten := h.parted_flatten
    rw [List.flatten_cons, maskKeywordsFrom_parted (by simp) hparted, mask_flatten h.tail, List.flatMap_cons]

theorem mask_eq_stretches (s : List Char) : maskKeywordsFrom [] s = ((stretches s).map keepWord).flatten := by
  conv => lhs; rw [← flatten_stretches s, mask_flatten (stretches_stretched s)]
  rw [List.flatMap_def, List.map_congr_left fun _ => mask_of_stretch]

theorem parted_keepWord {a b : List Char} (h : Parted isWord a b) : Parted isWord (keepWord a) (keepWord b) := by
  have hspace : isWord ' ' = false := by decide
  by_cases ha : a ∈ typeKeywords
  · rw [keepWord_of_mem ha]
    exact .of_last (by simpa using hspace)
  · by_cases hb : b ∈ typeKeywords
    · rw [keepWord_of_mem hb]
      exact .of_head (by simpa using hspace)
    · rwa [keepWord_of_not_mem ha, keepWord_of_not_mem hb]

theorem stretched_keepWord {parts : List (List Char)} (h : Stretched parts) : Stretched (parts.map keepWord) where
  nonempty := by
    intro kept hkept
    obtain ⟨part, hpart, rfl⟩ := List.mem_map.mp hkept
    by_cases hword : part ∈ typeKeywords
    · simp [keepWord_of_mem hword]
    · rw [keepWord_of_not_mem hword]
      exact h.nonempty part hpart
  parted := by
    rw [List.isChain_map]
    exact h.parted.imp fun _ _ => parted_keepWord

theorem words_mask (s : List Char) : words (maskKeywordsFrom [] s) = (words s).filter (· ∉ typeKeywords) := by
  have hspace : words [' '] = [] := by decide
  rw [mask_eq_stretches, words_flatten (stretched_keepWord (stretches_stretched s)), List.flatMap_map,
    words_eq_stretches s, List.filter_filter]
  apply flatMap_eq_filter
  intro part hpart
  by_cases hword : part ∈ typeKeywords
  · simp [keepWord_of_mem hword, hword, hspace]
  · simp [keepWord_of_not_mem hword, hword, words_of_stretch hpart]

theorem filter_mask (s : List Char) : (maskKeywordsFrom [] s).filter (fun c => !isBlank c) =
    ((stretches s).filter (· ∉ typeKeywords)).flatten.filter fun c => !isBlank c := by
  rw [mask_eq_stretches]
  induction stretches s with
  | nil => rfl
  | cons part parts ih =>
    rw [List.map_cons, List.flatten_cons, List.filter_append, ih, List.filter_cons]
    by_cases hword : part ∈ typeKeywords
    · simp [keepWord_of_mem hword, hword, isBlank_space]
    · simp [keepWord_of_not_mem hword, hword]

/-! ## Stripped texts -/

theorem stripKeywords_toList (text : String) :
    (stripKeywords text).toList = [' '].intercalate (pieces (maskKeywordsFrom [] text.toList)) := by
  rw [stripKeywords, String.toList_ofList, stripKeywordChars]

theorem stripKeywords_of_no_keyword {text : String} (spaced : [' '].intercalate (pieces text.toList) = text.toList)
    (h : ∀ word ∈ words text.toList, word ∉ typeKeywords) : stripKeywords text = text := by
  rw [← String.toList_inj, stripKeywords_toList, maskKeywordsFrom_eq_self h, List.nil_append, spaced]

/-- Stripping a text removes its keywords and no other word or character, and leaves single spaces. -/
theorem keywords_removed_exactly (text : String) :
    words (stripKeywords text).toList = (words text.toList).filter (· ∉ typeKeywords) ∧
      (stripKeywords text).toList.filter (fun c => !isBlank c) =
        ((stretches text.toList).filter (· ∉ typeKeywords)).flatten.filter (fun c => !isBlank c) ∧
      SingleSpaced (stripKeywords text).toList ∧
      stripKeywords (stripKeywords text) = stripKeywords text := by
  have hwords : words (stripKeywords text).toList = (words text.toList).filter (· ∉ typeKeywords) := by
    rw [stripKeywords_toList, words_intercalate_pieces, words_mask]
  have hpieces : ∀ piece ∈ pieces (maskKeywordsFrom [] text.toList), piece ≠ [] := ne_nil_of_runsFrom
  have hunblank : ∀ piece ∈ pieces (maskKeywordsFrom [] text.toList), ∀ c ∈ piece, isBlank c = false :=
    fun _ => unblank_of_pieces
  refine ⟨hwords, ?_, ?_, ?_⟩
  · rw [stripKeywords_toList, filter_intercalate_pieces, filter_mask]
  · rw [stripKeywords_toList]
    exact singleSpaced_intercalate hpieces hunblank
  · apply stripKeywords_of_no_keyword
    · rw [stripKeywords_toList, pieces_intercalate hpieces hunblank]
    · intro word hword
      rw [hwords, List.mem_filter] at hword
      simpa using hword.2

example : stripKeywords "const unsigned\tconst_t<class::enum> struct" = "unsigned const_t< :: >" := by decide

end SymbolIndex
