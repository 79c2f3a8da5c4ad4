import SymbolIndex.Proofs.Keywords

/-!
# Tokens spread over a text

A text is written from tokens with any blanks around them, as long as two words do not run together. Its words are
those of the tokens, and putting single spaces in place of its blanks leaves it written from the same tokens.
-/

namespace SymbolIndex

namespace Text

/-! ## Texts side by side -/

theorem isWord_of_isBlank {c : Char} (h : isBlank c = true) : isWord c = false := by
  cases hw : isWord c with
  | false => rfl
  | true =>
    rw [isBlank_of_isWord hw] at h
    cases h

theorem isBlank_space : isBlank ' ' = true := by decide

/-- No run of such characters goes on from one text into the next. -/
def Parted (p : Char → Bool) (a b : List Char) : Prop :=
  ∀ c ∈ a.getLast?, p c = true → ∀ d ∈ b.head?, p d = false

theorem parted_iff (p : Char → Bool) (a b : List Char) :
    (a.getLast?.any p && b.head?.any p) = false ↔ Parted p a b := by
  unfold Parted
  cases a.getLast? <;> cases b.head? <;> simp

-- by a look at two characters, not through all there are
instance (p : Char → Bool) (a b : List Char) : Decidable (Parted p a b) := decidable_of_iff _ (parted_iff p a b)

section
variable {p : Char → Bool} {a b : List Char}

theorem Parted.of_append (x : List Char) (h : Parted p (x ++ a) b) : Parted p a b := by
  intro c hc
  apply h c
  rw [List.getLast?_append, Option.mem_def.mp hc]
  rfl

theorem Parted.of_last (h : ∀ c ∈ a.getLast?, p c = false) : Parted p a b := by
  intro c hc hp
  rw [h c hc] at hp
  cases hp

theorem Parted.of_head (h : ∀ d ∈ b.head?, p d = false) : Parted p a b := fun _ _ _ => h

theorem Parted.of_blank (h : ∀ c ∈ a, isBlank c = true) : Parted isWord a b :=
  .of_last fun c hc => isWord_of_isBlank (h c (List.mem_of_getLast? hc))

theorem Parted.left {c : List Char} (h : Parted p a (b ++ c)) : Parted p a b := by
  intro e he hp d hd
  apply h e he hp
  rw [List.head?_append, Option.mem_def.mp hd]
  rfl

theorem Parted.append_left {c : List Char} (h : Parted p b c) (hnil : b = [] → Parted p a c) : Parted p (a ++ b) c := by
  cases b with
  | nil =>
    rw [List.append_nil]
    exact hnil rfl
  | cons d b =>
    intro e he
    apply h e
    simpa [List.getLast?_append, List.getLast?_cons] using he

theorem Parted.append_right {c : List Char} (h : Parted p a b) (hnil : b = [] → Parted p a c) :
    Parted p a (b ++ c) := by
  cases b with
  | nil => exact hnil rfl
  | cons d b => exact h

theorem Parted.eq_nil {d : Char} (h : Parted p a (d :: b)) (ha : ∀ c ∈ a, p c = true) (hd : p d = true) : a = [] := by
  cases hlast : a.getLast? with
  | none => exact List.getLast?_eq_none_iff.mp hlast
  | some c =>
    have hend := h c hlast (ha c (List.mem_of_getLast? hlast)) d rfl
    rw [hd] at hend
    cases hend

theorem runsFrom_parted : ∀ {a run : List Char}, (∀ c ∈ run, p c = true) → Parted p (run ++ a) b →
    runsFrom p run (a ++ b) = runsFrom p run a ++ runs p b
  | [], run, hrun, h => by
    rw [List.append_nil] at h
    cases b with
    | nil => simp [runsFrom, runs, finish]
    | cons d b =>
      by_cases hd : p d = true
      · rw [h.eq_nil hrun hd]
        rfl
      · simp [runs, runsFrom, hd, finish]
  | c :: a, run, hrun, h => by
    rw [List.append_cons] at h
    rw [List.cons_append, runsFrom, runsFrom]
    by_cases hc : p c = true
    · rw [if_pos hc, if_pos hc]
      exact runsFrom_parted (List.forall_mem_append.mpr ⟨hrun, by simpa using hc⟩) h
    · rw [if_neg hc, if_neg hc, List.append_assoc, runsFrom_parted (by simp) (h.of_append (run ++ [c]))]

theorem runs_append (h : Parted p a b) : runs p (a ++ b) = runs p a ++ runs p b :=
  runsFrom_parted (by simp) h

theorem runs_of_none {s : List Char} (h : ∀ c ∈ s, p c = false) : runs p s = [] := by
  induction s with
  | nil => rfl
  | cons c s ih =>
    rw [List.forall_mem_cons] at h
    rw [runs, runsFrom, if_neg (by simp [h.1])]
    exact ih h.2

theorem runs_of_all {s : List Char} (hne : s ≠ []) (h : ∀ c ∈ s, p c = true) : runs p s = [s] := by
  have hall := runsFrom_append [] h []
  rw [List.append_nil, List.nil_append] at hall
  rw [runs, hall]
  simp [runsFrom, finish, hne]

theorem runs_congr {q : Char → Bool} {s : List Char} (h : ∀ c ∈ s, p c = q c) : runs p s = runs q s := by
  suffices hfrom : ∀ run, runsFrom p run s = runsFrom q run s from hfrom []
  induction s with
  | nil => exact fun _ => rfl
  | cons c s ih =>
    rw [List.forall_mem_cons] at h
    intro run
    rw [runsFrom, runsFrom, h.1, ih h.2, ih h.2]

end

end Text

open Text

/-! ## Masked keywords -/

theorem keepWord_of_finish {word : List Char} (h : ∀ w ∈ finish word, w ∉ typeKeywords) : keepWord word = word := by
  by_cases hne : word = []
  · rw [hne]
    rfl
  · have hword := h word (mem_finish.mpr ⟨rfl, hne⟩)
    rw [keepWord, if_neg (by simpa using hword)]

theorem maskKeywordsFrom_parted {b : List Char} : ∀ {a word : List Char}, (∀ c ∈ word, isWord c = true) →
    Parted isWord (word ++ a) b → maskKeywordsFrom word (a ++ b) = maskKeywordsFrom word a ++ maskKeywordsFrom [] b
  | [], word, hword, h => by
    have hnil : keepWord [] = [] := rfl
    rw [List.append_nil] at h
    cases b with
    | nil => simp [maskKeywordsFrom, hnil]
    | cons d b =>
      by_cases hd : isWord d = true
      · rw [h.eq_nil hword hd]
        rfl
      · simp [maskKeywordsFrom, hd, hnil]
  | c :: a, word, hword, h => by
    rw [List.append_cons] at h
    rw [List.cons_append, maskKeywordsFrom, maskKeywordsFrom]
    by_cases hc : isWord c = true
    · rw [if_pos hc, if_pos hc]
      exact maskKeywordsFrom_parted (List.forall_mem_append.mpr ⟨hword, by simpa using hc⟩) h
    · rw [if_neg hc, if_neg hc, List.append_assoc, List.cons_append,
        maskKeywordsFrom_parted (by simp) (h.of_append (word ++ [c]))]

theorem maskKeywordsFrom_eq_self : ∀ {s word : List Char}, (∀ w ∈ runsFrom isWord word s, w ∉ typeKeywords) →
    maskKeywordsFrom word s = word ++ s
  | [], word, h => by rw [maskKeywordsFrom, keepWord_of_finish h, List.append_nil]
  | c :: s, word, h => by
    rw [runsFrom] at h
    rw [maskKeywordsFrom]
    by_cases hc : isWord c = true
    · rw [if_pos hc] at h ⊢
      rw [maskKeywordsFrom_eq_self h, List.append_assoc]
      rfl
    · rw [if_neg hc] at h ⊢
      obtain ⟨hword, hrest⟩ := List.forall_mem_append.mp h
      rw [keepWord_of_finish hword, maskKeywordsFrom_eq_self hrest, List.nil_append]

namespace Text

/-! ## Single spaces -/

theorem trimStart_pad {blanks s : List Char} (blank : ∀ c ∈ blanks, isBlank c = true)
    (head : ∀ c ∈ s.head?, isBlank c = false) : trimStart (blanks ++ s) = s := by
  rw [trimStart, List.dropWhile_append_of_pos blank]
  cases s with
  | nil => rfl
  | cons c s => rw [List.dropWhile_cons_of_neg (by simp [head c rfl])]

theorem trim_blanks {blanks : List Char} (blank : ∀ c ∈ blanks, isBlank c = true) : trim blanks = [] := by
  have hstart := trimStart_pad (s := []) blank (by simp)
  rw [List.append_nil] at hstart
  rw [trim, hstart]
  rfl

/-- The text with a space for each run of blanks before a character. Blanks at the end go; `gap` says whether there
were blanks just before. -/
def squeeze : Bool → List Char → List Char
  | _, [] => []
  | gap, c :: s =>
    if isBlank c then squeeze true s
    else if gap then ' ' :: c :: squeeze false s
    else c :: squeeze false s

def gapAfter (gap : Bool) (s : List Char) : Bool := (s.getLast?.map isBlank).getD gap

theorem squeeze_append : ∀ (gap : Bool) (a b : List Char),
    squeeze gap (a ++ b) = squeeze gap a ++ squeeze (gapAfter gap a) b
  | _, [], _ => rfl
  | gap, c :: a, b => by
    have hafter : gapAfter gap (c :: a) = gapAfter (isBlank c) a := by
      unfold gapAfter
      rw [List.getLast?_cons]
      cases a.getLast? <;> rfl
    rw [List.cons_append, squeeze, squeeze, squeeze_append true a b, squeeze_append false a b, hafter]
    by_cases hc : isBlank c = true
    · rw [if_pos hc, if_pos hc, hc]
    · have hc : isBlank c = false := by simpa using hc
      rw [hc]
      cases gap <;> rfl

theorem squeeze_blanks {blanks : List Char} (h : ∀ c ∈ blanks, isBlank c = true) (gap : Bool) :
    squeeze gap blanks = [] := by
  induction blanks generalizing gap with
  | nil => rfl
  | cons c blanks ih =>
    rw [List.forall_mem_cons] at h
    rw [squeeze, if_pos h.1, ih h.2]

theorem squeeze_unblank {s : List Char} (h : ∀ c ∈ s, isBlank c = false) : squeeze false s = s := by
  induction s with
  | nil => rfl
  | cons c s ih =>
    rw [List.forall_mem_cons] at h
    rw [squeeze, h.1, ih h.2]
    rfl

theorem head?_squeeze (s : List Char) :
    ∀ (gap : Bool), ∀ c ∈ (squeeze gap s).head?, c = ' ' ∨ gap = false ∧ s.head? = some c := by
  induction s with
  | nil => simp [squeeze]
  | cons d s ih =>
    intro gap c hc
    rw [squeeze] at hc
    by_cases hd : isBlank d = true
    · rw [if_pos hd] at hc
      exact Or.inl ((ih true c hc).resolve_right (by simp))
    · rw [if_neg hd] at hc
      cases gap with
      | true => exact Or.inl (Option.some.inj hc).symm
      | false => exact Or.inr ⟨rfl, hc⟩

theorem getLast?_squeeze {s : List Char} (h : ∀ c ∈ s.getLast?, isBlank c = false) (gap : Bool) :
    (squeeze gap s).getLast? = s.getLast? := by
  rcases List.eq_nil_or_concat s with rfl | ⟨a, d, rfl⟩
  · rfl
  · rw [List.concat_eq_append] at h ⊢
    have hd : isBlank d = false := h d (by simp)
    rw [squeeze_append, squeeze, hd]
    cases gapAfter gap a <;> simp [squeeze]

theorem filter_squeeze (s : List Char) : ∀ gap, (squeeze gap s).filter (· != ' ') = s.filter (fun c => !isBlank c) := by
  induction s with
  | nil => exact fun _ => rfl
  | cons c s ih =>
    intro gap
    by_cases hc : isBlank c = true
    · simp [squeeze, hc, ih]
    · have hne : c ≠ ' ' := by
        rintro rfl
        exact hc isBlank_space
      cases gap <;> simp [squeeze, hc, hne, ih]

theorem trimStart_squeeze (s : List Char) : trimStart (squeeze true s) = (squeeze true s).tail := by
  induction s with
  | nil => rfl
  | cons c s ih =>
    by_cases hc : isBlank c = true
    · rw [squeeze, if_pos hc]
      exact ih
    · simp [squeeze, hc, trimStart, isBlank_space]

theorem flatMap_runsFrom (s : List Char) : ∀ run, (runsFrom (fun c => !isBlank c) run s).flatMap (' ' :: ·) =
    if run = [] then squeeze true s else ' ' :: run ++ squeeze false s := by
  induction s with
  | nil =>
    intro run
    by_cases hrun : run = [] <;> simp [runsFrom, finish, hrun, squeeze]
  | cons c s ih =>
    intro run
    rw [runsFrom]
    by_cases hc : isBlank c = true
    · by_cases hrun : run = [] <;> simp [hc, ih, finish, hrun, squeeze]
    · by_cases hrun : run = [] <;> simp [hc, ih, hrun, squeeze]

theorem intercalate_space (pieces : List (List Char)) :
    [' '].intercalate pieces = (pieces.flatMap (' ' :: ·)).tail := by
  induction pieces with
  | nil => rfl
  | cons piece pieces ih =>
    cases pieces with
    | nil => simp
    | cons next pieces =>
      rw [List.intercalate_cons_cons, ih]
      simp

theorem intercalate_pieces (s : List Char) : [' '].intercalate (pieces s) = (squeeze true s).tail := by
  rw [intercalate_space, pieces, runs, flatMap_runsFrom, if_pos rfl]

end Text

/-! ## Tokens -/

structure Solid (token : List Char) : Prop where
  nonempty : token ≠ []
  head : ∀ c ∈ token.head?, isBlank c = false
  last : ∀ c ∈ token.getLast?, isBlank c = false

theorem solid_of_unblank {token : List Char} (nonempty : token ≠ []) (unblank : ∀ c ∈ token, isBlank c = false) :
    Solid token :=
  ⟨nonempty, fun c hc => unblank c (List.mem_of_head? hc), fun c hc => unblank c (List.mem_of_getLast? hc)⟩

theorem solid_of_all {token : List Char} (h : (!token.isEmpty && token.all fun c => !isBlank c) = true) :
    Solid token := by
  rw [Bool.and_eq_true, Bool.not_eq_true', List.isEmpty_eq_false_iff, List.all_eq_true] at h
  exact solid_of_unblank h.1 fun c hc => by simpa using h.2 c hc

namespace Solid

variable {token : List Char} (h : Solid token)
include h

theorem gapAfter (gap : Bool) : gapAfter gap token = false := by
  have hlast := List.getLast?_eq_some_getLast h.nonempty
  rw [Text.gapAfter, hlast]
  exact h.last _ hlast

theorem head_append (s : List Char) : ∀ c ∈ (token ++ s).head?, isBlank c = false := by
  obtain ⟨d, token, rfl⟩ := List.exists_cons_of_ne_nil h.nonempty
  exact h.head

theorem append {other : List Char} (hother : Solid other) (s : List Char) : Solid (token ++ (s ++ other)) := by
  refine ⟨by simp [h.nonempty], h.head_append _, ?_⟩
  have hlast := List.getLast?_eq_some_getLast hother.nonempty
  intro c hc
  rw [List.getLast?_append, List.getLast?_append, hlast] at hc
  exact hother.last c (hlast.trans hc)

theorem trim_pad {before after : List Char} (hb : ∀ c ∈ before, isBlank c = true)
    (ha : ∀ c ∈ after, isBlank c = true) : trim (before ++ (token ++ after)) = token := by
  have hend : ∀ c ∈ token.reverse.head?, isBlank c = false := by
    rw [List.head?_reverse]
    exact h.last
  rw [trim, trimStart_pad hb (h.head_append after), trimEnd, List.reverse_append,
    trimStart_pad (by simpa using ha) hend, List.reverse_reverse]

theorem squeeze (gap : Bool) : squeeze gap token = (if gap then [' '] else []) ++ squeeze false token := by
  obtain ⟨c, s, rfl⟩ := List.exists_cons_of_ne_nil h.nonempty
  rw [Text.squeeze, Text.squeeze, h.head c rfl]
  cases gap <;> rfl

theorem squeezed : Solid (Text.squeeze false token) := by
  obtain ⟨c, s, rfl⟩ := List.exists_cons_of_ne_nil h.nonempty
  have hc := h.head c rfl
  have hshape : Text.squeeze false (c :: s) = c :: Text.squeeze false s := by
    rw [Text.squeeze, hc]
    rfl
  refine ⟨by simp [hshape], ?_, ?_⟩
  · rw [hshape]
    exact h.head
  · rw [getLast?_squeeze h.last]
    exact h.last

end Solid

/-- The text is written from the tokens, with blanks around them, and no two words run together. -/
inductive Spread : List (List Char) → List Char → Prop where
  | nil {blanks : List Char} (blank : ∀ c ∈ blanks, isBlank c = true) : Spread [] blanks
  | cons {blanks token text : List Char} {tokens : List (List Char)} (blank : ∀ c ∈ blanks, isBlank c = true)
      (parted : Parted isWord token text) (rest : Spread tokens text) :
      Spread (token :: tokens) (blanks ++ (token ++ text))

namespace Spread

variable {tokens : List (List Char)} {text : List Char}

theorem pad {blanks : List Char} (blank : ∀ c ∈ blanks, isBlank c = true) (h : Spread tokens text) :
    Spread tokens (blanks ++ text) := by
  cases h with
  | nil after => exact .nil (List.forall_mem_append.mpr ⟨blank, after⟩)
  | cons before parted rest =>
    rw [← List.append_assoc]
    exact .cons (List.forall_mem_append.mpr ⟨blank, before⟩) parted rest

def check : List (List Char) → List Char → Bool
  | [], text => text.all isBlank
  | token :: tokens, text =>
    let rest := (Text.trimStart text).drop token.length
    token.isPrefixOf (Text.trimStart text) && decide (Parted isWord token rest) && check tokens rest

theorem of_check : ∀ {tokens : List (List Char)} {text : List Char}, check tokens text = true → Spread tokens text
  | [], text, h => .nil (List.all_eq_true.mp h)
  | token :: tokens, text, h => by
    simp only [check, Bool.and_eq_true, decide_eq_true_eq, List.isPrefixOf_iff_prefix] at h
    obtain ⟨⟨⟨rest, hrest⟩, hparted⟩, hcheck⟩ := h
    rw [← hrest, List.drop_left] at hparted hcheck
    rw [← List.takeWhile_append_dropWhile (p := isBlank) (l := text), ← Text.trimStart, ← hrest]
    exact .cons (List.all_eq_true.mp List.all_takeWhile) hparted (of_check hcheck)

theorem words_eq (h : Spread tokens text) : words text = tokens.flatMap words := by
  induction h with
  | nil blank => exact runs_of_none fun c hc => isWord_of_isBlank (blank c hc)
  | @cons blanks token text tokens blank parted rest ih =>
    have hgap : ∀ c ∈ blanks, isWord c = false := fun c hc => isWord_of_isBlank (blank c hc)
    have hparted : Parted isWord blanks (token ++ text) := .of_last fun c hc => hgap c (List.mem_of_getLast? hc)
    rw [words, runs_append hparted, runs_append parted, runs_of_none hgap, List.flatMap_cons, ← ih]
    rfl

theorem mem {token : List Char} {c : Char} (h : Spread tokens text) (ht : token ∈ tokens) (hc : c ∈ token) :
    c ∈ text := by
  induction h with
  | nil blank => simp at ht
  | cons blank parted rest ih =>
    rcases List.mem_cons.mp ht with rfl | ht
    · simp [hc]
    · simp [ih ht]

theorem forall_mem {p : Char → Prop} (h : Spread tokens text) (blank : ∀ c, isBlank c = true → p c)
    (token : ∀ token ∈ tokens, ∀ c ∈ token, p c) : ∀ c ∈ text, p c := by
  induction h with
  | nil hb => exact fun c hc => blank c (hb c hc)
  | cons hb parted rest ih =>
    obtain ⟨hfirst, hrest⟩ := List.forall_mem_cons.mp token
    rw [List.forall_mem_append, List.forall_mem_append]
    exact ⟨fun c hc => blank c (hb c hc), hfirst, ih hrest⟩

theorem pieces_eq (h : Spread tokens text) (nonempty : ∀ token ∈ tokens, token ≠ [])
    (word : ∀ token ∈ tokens, ∀ c ∈ token, isWord c = true) : pieces text = tokens := by
  have hsame : ∀ c ∈ text, (!isBlank c) = isWord c := by
    refine h.forall_mem (p := fun c => (!isBlank c) = isWord c) ?_ ?_
    · intro c hc
      rw [hc, isWord_of_isBlank hc]
      rfl
    · intro token ht c hc
      rw [word token ht c hc, isBlank_of_isWord (word token ht c hc)]
      rfl
  have hwords : tokens.map words = tokens.map fun token => [token] :=
    List.map_congr_left fun token ht => runs_of_all (nonempty token ht) (word token ht)
  rw [pieces, runs_congr hsame, ← words, h.words_eq, List.flatMap_def, hwords, ← List.flatMap_def,
    List.flatMap_singleton']

theorem getLast?_eq (h : Spread tokens text) (nonempty : ∀ token ∈ tokens, token ≠ []) :
    ∀ c ∈ text.getLast?, isBlank c = true ∨ ∃ token ∈ tokens, token.getLast? = some c := by
  induction h with
  | nil blank => exact fun c hc => Or.inl (blank c (List.mem_of_getLast? hc))
  | @cons blanks token text tokens blank parted rest ih =>
    obtain ⟨hfull, nonempty⟩ := List.forall_mem_cons.mp nonempty
    intro c hc
    rw [List.getLast?_append, List.getLast?_append] at hc
    cases hlast : text.getLast? with
    | some d =>
      rw [hlast] at hc
      rcases ih nonempty c (hlast.trans hc) with hb | ⟨t, ht, htc⟩
      · exact Or.inl hb
      · exact Or.inr ⟨t, List.mem_cons_of_mem _ ht, htc⟩
    | none =>
      have htoken := List.getLast?_eq_some_getLast hfull
      rw [hlast, htoken] at hc
      exact Or.inr ⟨token, List.mem_cons_self .., htoken.trans hc⟩

theorem trimStart (h : Spread tokens text) (solid : ∀ token ∈ tokens, Solid token) :
    Spread tokens (trimStart text) := by
  cases h with
  | nil blank =>
    rw [Text.trimStart, ← List.append_nil text, List.dropWhile_append_of_pos blank]
    exact .nil (by simp)
  | @cons blanks token text tokens blank parted rest =>
    obtain ⟨hsolid, -⟩ := List.forall_mem_cons.mp solid
    have hspread : Spread (token :: tokens) ([] ++ (token ++ text)) := .cons (by simp) parted rest
    rw [trimStart_pad blank (hsolid.head_append text)]
    exact hspread

/-- From the end: a last token stands before blanks, behind a text written from the others. -/
theorem concat_iff {token : List Char} (nonempty : token ≠ []) : Spread (tokens ++ [token]) text ↔
    ∃ front blanks, text = front ++ (token ++ blanks) ∧ Spread tokens front ∧ Parted isWord front token ∧
      ∀ c ∈ blanks, isBlank c = true := by
  constructor
  · intro h
    induction tokens generalizing text with
    | nil =>
      cases h with
      | @cons blanks _ text _ blank parted rest =>
        cases rest with
        | nil after =>
          exact ⟨blanks, text, rfl, .nil blank, .of_blank blank, after⟩
    | cons first tokens ih =>
      cases h with
      | @cons blanks _ text _ blank parted rest =>
        obtain ⟨front, after, rfl, hfront, hparted, hafter⟩ := ih rest
        refine ⟨blanks ++ (first ++ front), after, by simp, .cons blank parted.left hfront, ?_, hafter⟩
        apply Parted.append_left
        · apply hparted.append_left
          rintro rfl
          rw [List.nil_append] at parted
          exact parted.left
        · exact fun _ => .of_blank blank
  · rintro ⟨front, after, rfl, hfront, hparted, hafter⟩
    have hlast : Parted isWord token after := .of_head fun d hd => isWord_of_isBlank (hafter d (List.mem_of_head? hd))
    induction hfront with
    | nil blank => exact .cons blank hlast (.nil hafter)
    | @cons blanks first text tokens blank parted rest ih =>
      have hrest := hparted.of_append blanks
      rw [List.cons_append, List.append_assoc, List.append_assoc]
      refine .cons blank (parted.append_right ?_) (ih (hrest.of_append first))
      rintro rfl
      rw [List.append_nil] at hrest
      exact hrest.append_right fun hnil => absurd hnil nonempty

theorem squeeze (h : Spread tokens text) (solid : ∀ token ∈ tokens, Solid token) :
    ∀ gap, Spread (tokens.map (Text.squeeze false)) (Text.squeeze gap text) := by
  induction h with
  | nil blank =>
    intro gap
    rw [squeeze_blanks blank]
    exact .nil (by simp)
  | @cons blanks token text tokens blank parted rest ih =>
    intro gap
    obtain ⟨hsolid, solid⟩ := List.forall_mem_cons.mp solid
    rw [squeeze_append, squeeze_append, squeeze_blanks blank, List.nil_append, hsolid.gapAfter, hsolid.squeeze,
      List.append_assoc, List.map_cons]
    refine .cons ?_ ?_ (ih solid false)
    · split <;> simp [isBlank_space]
    · intro c hc hword d hd
      rw [getLast?_squeeze hsolid.last] at hc
      rcases head?_squeeze text false d hd with rfl | ⟨-, hd⟩
      · exact isWord_of_isBlank isBlank_space
      · exact parted c hc hword d hd

theorem intercalate_pieces (h : Spread tokens text) (solid : ∀ token ∈ tokens, Solid token) :
    Spread (tokens.map (Text.squeeze false)) ([' '].intercalate (pieces text)) := by
  rw [Text.intercalate_pieces, ← trimStart_squeeze]
  apply (h.squeeze solid true).trimStart
  intro token ht
  obtain ⟨loose, hloose, rfl⟩ := List.mem_map.mp ht
  exact (solid loose hloose).squeezed

end Spread

end SymbolIndex
