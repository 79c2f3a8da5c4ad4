import SymbolIndex.Proofs.Layers
import SymbolIndex.Proofs.TypeSyntax

/-!
# Written and reported types

The spelling of a written type is read from the end, as text. The type that a compiler reports for it is read from the
outside, as a tree. Both give the same reference.
-/

namespace SymbolIndex

open Text

/-! ## Peeling from the end -/

theorem peelReversed_blank {c : Char} (h : isBlank c = true) (s : List Char) :
    peelReversed (c :: s) = peelReversed s := by
  rw [peelReversed, if_pos h]
  all_goals
    intros
    subst_vars
    exact absurd h (by decide)

theorem peelReversed_blanks {blanks : List Char} (h : ∀ c ∈ blanks, isBlank c = true) (s : List Char) :
    peelReversed (blanks ++ s) = peelReversed s := by
  induction blanks with
  | nil => rfl
  | cons c blanks ih =>
    rw [List.forall_mem_cons] at h
    rw [List.cons_append, peelReversed_blank h.1, ih h.2]

theorem peelReversed_trimStart (s : List Char) : peelReversed (trimStart s) = peelReversed s := by
  induction s with
  | nil => rfl
  | cons c s ih =>
    by_cases hc : isBlank c = true
    · rw [peelReversed_blank hc, ← ih, trimStart, List.dropWhile_cons_of_pos hc]
      rfl
    · rw [trimStart, List.dropWhile_cons_of_neg hc]

theorem peelReversed_rest {c : Char} {s : List Char} (hblank : isBlank c = false) (hstar : c ≠ '*') (hamp : c ≠ '&')
    (hconst : ∀ t, c :: s = "const".toList.reverse ++ t → (t.head?.map isWord).getD false = true) :
    peelReversed (c :: s) = { rest := c :: s } := by
  unfold peelReversed
  split
  · rename_i heq
    cases heq
  · rename_i heq
    exact absurd (List.cons.inj heq).1 hstar
  · rename_i heq
    exact absurd (List.cons.inj heq).1 hamp
  · rename_i heq
    exact absurd (List.cons.inj heq).1 hamp
  · rename_i t heq
    rw [if_pos (hconst t heq), heq]
  · rename_i heq
    obtain ⟨rfl, rfl⟩ := List.cons.inj heq
    rw [hblank]
    rfl

theorem peelReversed_const {front : List Char} (h : Parted isWord front "const".toList) :
    peelReversed ("const".toList.reverse ++ front.reverse) = peelReversed front.reverse := by
  have hhead : (front.reverse.head?.map isWord).getD false = false := by
    rw [List.head?_reverse]
    cases hlast : front.getLast? with
    | none => rfl
    | some c =>
      cases hc : isWord c with
      | false => simpa using hc
      | true => exact absurd (h c hlast hc 'c' rfl) (by decide)
  rw [show "const".toList.reverse ++ front.reverse = 't' :: 's' :: 'n' :: 'o' :: 'c' :: front.reverse from rfl,
    peelReversed, hhead]
  rfl

theorem peelReversed_word {front word : List Char} (nonempty : word ≠ []) (hword : ∀ c ∈ word, isWord c = true)
    (hne : word ≠ "const".toList) (h : Parted isWord front word) :
    peelReversed (word.reverse ++ front.reverse) = { rest := word.reverse ++ front.reverse } := by
  cases hr : word.reverse with
  | nil => exact absurd (List.reverse_eq_nil_iff.mp hr) nonempty
  | cons c s =>
    have hc : isWord c = true := hword c (List.mem_reverse.mp (hr ▸ List.mem_cons_self ..))
    rw [List.cons_append]
    apply peelReversed_rest (isBlank_of_isWord hc)
    · rintro rfl
      exact absurd hc (by decide)
    · rintro rfl
      exact absurd hc (by decide)
    · intro t ht
      rw [← List.cons_append, ← hr, ← List.reverse_append, ← List.reverse_reverse t, ← List.reverse_append,
        List.reverse_inj] at ht
      -- a shorter word would run into the text before it, so the letters before `const` are the word's own
      rcases List.append_eq_append_iff.mp ht with ⟨a, hfront, hsplit⟩ | ⟨a, hfront, hsplit⟩
      · cases ha : a.getLast? with
        | none =>
          rw [List.getLast?_eq_none_iff.mp ha] at hsplit
          exact absurd hsplit hne
        | some d =>
          have hd : isWord d = true := hword d (hsplit ▸ List.mem_append_left _ (List.mem_of_getLast? ha))
          rw [← List.getLast?_reverse, hfront, List.getLast?_append, ha]
          exact hd
      · cases ha : a.getLast? with
        | none =>
          rw [List.getLast?_eq_none_iff.mp ha] at hsplit
          exact absurd hsplit.symm hne
        | some d =>
          have hd : isWord d = true :=
            typeKeywords_words (List.mem_cons_self ..) d (hsplit ▸ List.mem_append_left _ (List.mem_of_getLast? ha))
          obtain ⟨e, word, rfl⟩ := List.exists_cons_of_ne_nil nonempty
          have hend := h d (by rw [hfront, List.getLast?_append, ha]; rfl) hd e rfl
          rw [hword e (List.mem_cons_self ..)] at hend
          cases hend

section
variable {tokens : List (List Char)} {text : List Char}

theorem Spread.peel_last {token : List Char} (nonempty : token ≠ []) (h : Spread (tokens ++ [token]) text) :
    ∃ front, Spread tokens front ∧ Parted isWord front token ∧ Spread (tokens ++ [token]) (front ++ token) ∧
      peelReversed text.reverse = peelReversed (token.reverse ++ front.reverse) := by
  obtain ⟨front, blanks, rfl, hfront, hparted, hblank⟩ := (Spread.concat_iff nonempty).mp h
  have htight := (Spread.concat_iff nonempty).mpr ⟨front, [], rfl, hfront, hparted, by simp⟩
  rw [List.append_nil] at htight
  refine ⟨front, hfront, hparted, htight, ?_⟩
  rw [List.reverse_append, List.reverse_append, List.append_assoc, peelReversed_blanks (by simpa using hblank)]

theorem Spread.peel_const {isConst : Bool} (h : Spread (tokens ++ constTokens isConst) text) :
    ∃ front, Spread tokens front ∧ peelReversed text.reverse = peelReversed front.reverse := by
  cases isConst with
  | false =>
    rw [constTokens, if_neg (by simp), List.append_nil] at h
    exact ⟨text, h, rfl⟩
  | true =>
    obtain ⟨front, hfront, hparted, -, hpeel⟩ := Spread.peel_last (by decide) h
    exact ⟨front, hfront, hpeel.trans (peelReversed_const hparted)⟩

theorem Spread.peel_pointers : ∀ {pointers : List Bool} {tokens : List (List Char)} {text : List Char},
    Spread (tokens ++ pointerTokens pointers) text → ∃ front, Spread tokens front ∧
      peelReversed text.reverse = { peelReversed front.reverse with
        pointers := (peelReversed front.reverse).pointers + pointers.length }
  | [], tokens, text, h => by
    rw [pointerTokens, List.flatMap_nil, List.append_nil] at h
    exact ⟨text, h, rfl⟩
  | isConst :: pointers, tokens, text, h => by
    have htokens : tokens ++ pointerTokens (isConst :: pointers) =
        tokens ++ [['*']] ++ constTokens isConst ++ pointerTokens pointers := by
      simp [pointerTokens]
    rw [htokens] at h
    obtain ⟨outer, houter, hpeel⟩ := peel_pointers h
    obtain ⟨pointer, hpointer, hconst⟩ := houter.peel_const
    obtain ⟨front, hfront, -, -, hstar⟩ := Spread.peel_last (by simp) hpointer
    refine ⟨front, hfront, ?_⟩
    have hcount : peelReversed (['*'].reverse ++ front.reverse) =
        { peelReversed front.reverse with pointers := (peelReversed front.reverse).pointers + 1 } := by
      rw [show ['*'].reverse ++ front.reverse = '*' :: front.reverse from rfl, peelReversed]
    rw [hpeel, hconst, hstar, hcount, List.length_cons, Nat.add_assoc, Nat.add_comm 1]

theorem Spread.peel_reference {reference : Option Bool} (h : Spread (tokens ++ referenceTokens reference) text)
    (solid : ∀ token ∈ tokens, Solid token) (plain : ∀ token ∈ tokens, token.getLast? ≠ some '&') :
    ∃ front, Spread tokens front ∧ peelReversed text.reverse = { peelReversed front.reverse with
      references := (peelReversed front.reverse).references + if reference.isSome then 1 else 0 } := by
  cases reference with
  | none =>
    rw [referenceTokens, List.append_nil] at h
    exact ⟨text, h, rfl⟩
  | some rvalue =>
    cases rvalue with
    | true =>
      obtain ⟨front, hfront, -, -, hpeel⟩ := Spread.peel_last (by simp) h
      refine ⟨front, hfront, hpeel.trans ?_⟩
      rw [show ['&', '&'].reverse ++ front.reverse = '&' :: '&' :: front.reverse from rfl, peelReversed]
      rfl
    | false =>
      obtain ⟨front, hfront, -, -, hpeel⟩ := Spread.peel_last (by simp) h
      refine ⟨front, hfront, hpeel.trans ?_⟩
      rw [show ['&'].reverse ++ front.reverse = '&' :: front.reverse from rfl, peelReversed]
      · rfl
      · intro t ht
        -- a second `&` would be the end of the text before this one
        have hlast : front.getLast? = some '&' := by
          rw [← List.head?_reverse, ht]
          rfl
        rcases hfront.getLast?_eq (fun token ht => (solid token ht).nonempty) '&' hlast with hblank | ⟨token, ht, hend⟩
        · exact absurd hblank (by decide)
        · exact plain token ht hend

end

namespace BaseSyntax

variable (base : BaseSyntax)

theorem getLast?_tokens : ∀ token ∈ base.tokens, token.getLast? ≠ some '&' := by
  have hword : ∀ {token : List Char}, (∀ c ∈ token, isWord c = true) → token.getLast? ≠ some '&' := fun word hlast =>
    absurd (word _ (List.mem_of_getLast? hlast)) (by decide)
  intro token ht
  cases base with
  | builtin type => exact hword (type.pieces_name.1 token ht).2.1
  | path rooted outer last plain unlisted =>
    rcases mem_path ht with rfl | ⟨part, -, hpart⟩
    · decide
    · rcases part.mem_tokens.mp hpart with rfl | ⟨a, ha, rfl⟩
      · exact hword part.word
      · rw [NamePart.getLast?_arguments ha]
        decide

theorem tokens_concat : ∃ front token, base.tokens = front ++ [token] ∧ token ≠ [] ∧
    ((∀ c ∈ token, isWord c = true) ∧ token ≠ "const".toList ∨ token.getLast? = some '>') := by
  cases base with
  | builtin type =>
    rcases List.eq_nil_or_concat (pieces type.name.toList) with hnil | ⟨front, token, heq⟩
    · have hspaced := type.pieces_name.2
      rw [hnil] at hspaced
      exact absurd (String.toList_eq_nil_iff.mp hspaced.symm) type.name_ne
    · rw [List.concat_eq_append] at heq
      obtain ⟨nonempty, word, hkeyword⟩ := type.pieces_name.1 token (by simp [heq])
      refine ⟨front, token, heq, nonempty, Or.inl ⟨word, ?_⟩⟩
      rintro rfl
      exact hkeyword (List.mem_cons_self ..)
  | path rooted outer last plain unlisted =>
    cases harguments : last.arguments with
    | none =>
      refine ⟨rootTokens rooted ++ outer.flatMap (fun part => part.tokens ++ ["::".toList]), last.name.toList, ?_,
        by simpa using last.named, Or.inl ⟨last.word, ?_⟩⟩
      · simp [tokens, pathTokens, NamePart.tokens, harguments]
      · intro hconst
        have hplain := plain last (by simp) last.name.toList (last.mem_tokens.mpr (Or.inl rfl))
        rw [words, runs_of_all (by simpa using last.named) last.word, hconst] at hplain
        exact hplain _ (List.mem_singleton_self _) (List.mem_cons_self ..)
    | some a =>
      have hlast := NamePart.getLast?_arguments harguments
      refine ⟨rootTokens rooted ++ outer.flatMap (fun part => part.tokens ++ ["::".toList]) ++ [last.name.toList],
        a.toList, ?_, ?_, Or.inr hlast⟩
      · simp [tokens, pathTokens, NamePart.tokens, harguments]
      · intro hnil
        rw [hnil] at hlast
        cases hlast

variable {base}

theorem peel {tokens : List (List Char)} {text : List Char} (h : Spread (tokens ++ base.tokens) text) :
    ∃ rest, Spread (tokens ++ base.tokens) rest ∧ peelReversed text.reverse = { rest := rest.reverse } := by
  obtain ⟨inner, token, htokens, nonempty, hend⟩ := base.tokens_concat
  rw [htokens, ← List.append_assoc] at h ⊢
  obtain ⟨front, -, hparted, htight, hpeel⟩ := Spread.peel_last nonempty h
  refine ⟨front ++ token, htight, ?_⟩
  rw [hpeel, List.reverse_append]
  rcases hend with ⟨hword, hne⟩ | hclose
  · exact peelReversed_word nonempty hword hne hparted
  · cases hr : token.reverse with
    | nil => exact absurd (List.reverse_eq_nil_iff.mp hr) nonempty
    | cons c s =>
      have hc : c = '>' := by
        rw [← List.head?_reverse, hr] at hclose
        exact Option.some.inj hclose
      rw [List.cons_append]
      subst hc
      apply peelReversed_rest (by decide) (by decide) (by decide)
      intro t ht
      exact absurd (List.cons.inj ht).1 (by decide)

end BaseSyntax

theorem mem_constTokens {isConst : Bool} {token : List Char} (h : token ∈ constTokens isConst) :
    token = "const".toList := by
  cases isConst with
  | false => simp [constTokens] at h
  | true => exact List.mem_singleton.mp h

theorem const_mem (isConst : Bool) : "const".toList ∈ (constTokens isConst).flatMap words ↔ isConst = true := by
  cases isConst <;> decide

namespace TypeSyntax

variable (type : TypeSyntax)

theorem mem_pointerTokens {pointers : List Bool} {token : List Char} (h : token ∈ pointerTokens pointers) :
    token = ['*'] ∨ token = "const".toList := by
  obtain ⟨isConst, -, ht⟩ := List.mem_flatMap.mp h
  rcases List.mem_cons.mp ht with ht | ht
  · exact Or.inl ht
  · exact Or.inr (mem_constTokens ht)

theorem mem_innerTokens {token : List Char} (h : token ∈ type.innerTokens) :
    token ∈ type.base.tokens ∨ token = ['*'] ∨ token = "const".toList := by
  simp only [innerTokens, List.mem_append] at h
  rcases h with ((h | h) | h) | h
  · exact Or.inr (Or.inr (mem_constTokens h))
  · exact Or.inl h
  · exact Or.inr (Or.inr (mem_constTokens h))
  · exact Or.inr (mem_pointerTokens h)

theorem solid_tokens : ∀ token ∈ type.tokens, Solid token := by
  intro token ht
  rcases List.mem_append.mp ht with ht | ht
  · rcases type.mem_innerTokens ht with ht | rfl | rfl
    · exact type.base.solid_tokens token ht
    · exact solid_of_all (by decide)
    · exact solid_of_all (by decide)
  · unfold referenceTokens at ht
    split at ht
    · simp at ht
    · rw [List.mem_singleton.mp ht]
      exact solid_of_all (by decide)
    · rw [List.mem_singleton.mp ht]
      exact solid_of_all (by decide)

theorem getLast?_innerTokens : ∀ token ∈ type.innerTokens, token.getLast? ≠ some '&' := by
  intro token ht
  rcases type.mem_innerTokens ht with ht | rfl | rfl
  · exact type.base.getLast?_tokens token ht
  · decide
  · decide

theorem const_mem_pointers (pointers : List Bool) :
    "const".toList ∈ (pointerTokens pointers).flatMap words ↔ pointers.any id = true := by
  induction pointers with
  | nil => simp [pointerTokens]
  | cons isConst pointers ih =>
    have htokens : pointerTokens (isConst :: pointers) = [['*']] ++ constTokens isConst ++ pointerTokens pointers := by
      simp [pointerTokens]
    have hstar : [['*']].flatMap words = [] := by decide
    rw [htokens, List.flatMap_append, List.flatMap_append, hstar, List.nil_append, List.mem_append, const_mem, ih]
    simp

theorem const_mem_words : "const".toList ∈ type.tokens.flatMap words ↔
    (type.constBefore || type.constAfter || type.pointers.any id) = true := by
  have hbase : "const".toList ∉ type.base.tokens.flatMap words := by
    intro hm
    obtain ⟨token, ht, hw⟩ := List.mem_flatMap.mp hm
    exact type.base.plain_tokens token ht _ hw (List.mem_cons_self ..)
  have hreference : (referenceTokens type.reference).flatMap words = [] := by
    unfold referenceTokens
    split <;> decide
  simp only [tokens, innerTokens, List.flatMap_append, List.mem_append, hreference, const_mem, const_mem_pointers, hbase]
  simp

variable {type} {text : List Char}

theorem peel_eq (h : Spread type.tokens text) :
    ∃ rest, Spread (constTokens type.constBefore ++ type.base.tokens) rest ∧
      peel (trim text) = { pointers := type.pointers.length
                           references := if type.reference.isSome then 1 else 0
                           rest := rest } := by
  have hsolid := type.solid_tokens
  have hreference := (h.trimStart hsolid).peel_reference (fun token ht => hsolid token (List.mem_append_left _ ht))
    type.getLast?_innerTokens
  obtain ⟨inner, hinner, hreferences⟩ := hreference
  obtain ⟨qualified, hqualified, hpointers⟩ := hinner.peel_pointers
  obtain ⟨plain, hplain, hconst⟩ := hqualified.peel_const
  obtain ⟨rest, hrest, hbase⟩ := BaseSyntax.peel hplain
  refine ⟨rest, hrest, ?_⟩
  have hpeeled : peelReversed (trim text).reverse = { pointers := type.pointers.length
                                                      references := if type.reference.isSome then 1 else 0
                                                      rest := rest.reverse } := by
    rw [trim, trimEnd, List.reverse_reverse, peelReversed_trimStart, hreferences, hpointers, hconst, hbase]
    simp
  rw [peel, hpeeled]
  simp

end TypeSyntax

/-! ## The two readings -/

/-- A reported type with the layers of a written one, from the base outwards. How they are spelled does not matter. -/
inductive Stacked (base : TypeTree) : List Bool → Option Bool → TypeTree → Prop where
  | base : Stacked base [] none base
  | pointer {pointers : List Bool} {tree : TypeTree} (written : Written) (rest : Stacked base pointers none tree) :
      Stacked base (pointers ++ [written.isConst]) none (.pointer written tree)
  | reference {pointers : List Bool} {tree : TypeTree} {written : Written} (rvalue : Bool)
      (plain : written.isConst = false) (rest : Stacked base pointers none tree) :
      Stacked base pointers (some rvalue) (.reference written rvalue tree)

/-- A builtin type is reported as such. A path is reported as a named type without a declaration, spelled like the path
and perhaps with `const` in front of it. -/
inductive BaseSyntax.Reported (isConst : Bool) : BaseSyntax → TypeTree → Prop where
  | builtin {type : Builtin} {written : Written} (qualified : written.isConst = isConst) :
      Reported isConst (.builtin type) (.builtin written type)
  | path {rooted : Bool} {outer : List NamePart} {last : NamePart} {plain : ∀ part ∈ outer ++ [last], part.Plain}
      {unlisted : rooted = false → outer = [] → last.arguments = none → last.name ∉ Builtin.names}
      {written : Written} {kind : NamedKind} {declaration : Option Site} (inFront : Bool)
      (qualified : written.isConst = isConst) (undeclared : usableDeclaration declaration = none)
      (spelled : Spread (constTokens inFront ++ (BaseSyntax.path rooted outer last plain unlisted).tokens)
        written.spelling.toList) :
      Reported isConst (.path rooted outer last plain unlisted) (.named written kind declaration)

def TypeSyntax.Reported (type : TypeSyntax) (tree : TypeTree) : Prop :=
  ∃ base, type.base.Reported (type.constBefore || type.constAfter) base ∧ Stacked base type.pointers type.reference tree

theorem Stacked.core_eq {base tree : TypeTree} {pointers : List Bool} {reference : Option Bool}
    (h : Stacked base pointers reference tree) :
    tree.core = { base.core with
      isConst := base.core.isConst || pointers.any id
      pointers := base.core.pointers + pointers.length
      references := base.core.references + if reference.isSome then 1 else 0 } := by
  induction h with
  | base => simp
  | @pointer pointers tree written rest ih =>
    rw [TypeTree.core, ih]
    cases written.isConst <;> simp [Int.add_assoc]
  | reference rvalue plain rest ih =>
    rw [TypeTree.core, ih]
    simp [plain]

theorem BaseSyntax.Reported.core_eq {base : BaseSyntax} {isConst : Bool} {tree : TypeTree}
    (h : base.Reported isConst tree) : tree.core = { base.meaning with isConst := isConst } := by
  cases h with
  | builtin qualified => rw [TypeTree.core, qualified, meaning]
  | path inFront qualified undeclared spelled =>
    rw [TypeTree.core, readScopedName_stripKeywords spelled, undeclared, qualified, meaning]
    rfl

theorem TypeSyntax.ofTree_eq {type : TypeSyntax} {tree : TypeTree} (h : type.Reported tree) :
    TypeRef.ofTree tree = { type.meaning with rawName := tree.spelling } := by
  obtain ⟨base, hbase, hstack⟩ := h
  rw [TypeRef.ofTree, hstack.core_eq, hbase.core_eq, meaning]
  cases type.base <;> simp [BaseSyntax.meaning]

theorem TypeSyntax.ofSpelling_eq {type : TypeSyntax} {text : String} (h : Spread type.tokens text.toList) :
    TypeRef.ofSpelling text = { type.meaning with rawName := text } := by
  obtain ⟨rest, hrest, hpeel⟩ := peel_eq h
  have hconst : (words text.toList).contains "const".toList =
      (type.constBefore || type.constAfter || type.pointers.any id) := by
    rw [Bool.eq_iff_iff, ← type.const_mem_words, ← h.words_eq, List.contains_iff_mem]
  have hrest : Spread (constTokens type.constBefore ++ type.base.tokens) (String.ofList rest).toList := by
    rw [String.toList_ofList]
    exact hrest
  rw [TypeRef.ofSpelling, hpeel, hconst, meaning]
  simp only
  cases hbase : type.base with
  | builtin builtin =>
    rw [hbase] at hrest
    have hlisted : Builtin.names.contains builtin.name = true := List.contains_iff_mem.mpr builtin.mem_names
    rw [BaseSyntax.stripKeywords_builtin hrest, if_pos hlisted]
    cases type.reference <;> simp [BaseSyntax.meaning]
  | path rooted outer last plain unlisted =>
    rw [hbase] at hrest
    have hunlisted := BaseSyntax.stripKeywords_unlisted hrest
    rw [if_neg (by simpa using hunlisted), BaseSyntax.readScopedName_stripKeywords hrest]
    cases type.reference <;> simp [BaseSyntax.meaning]

/-- The spelling of a type and the type that is reported for it are read alike, and as what the type is written to
mean. -/
theorem spelling_read_as_reported {type : TypeSyntax} {text : String} {tree : TypeTree}
    (written : Spread type.tokens text.toList) (reported : type.Reported tree) :
    TypeRef.ofTree tree = { TypeRef.ofSpelling text with rawName := tree.spelling } ∧
      TypeRef.ofSpelling text = { type.meaning with rawName := text } := by
  rw [type.ofSpelling_eq written, type.ofTree_eq reported]
  exact ⟨rfl, rfl⟩

namespace QualifiedPath

def outermost : NamePart where
  name := "ns"
  identifier := by decide
  bracketed := PathPart.bracketed_none
  word := List.all_eq_true.mp (by decide)
  closed := by simp

def box : NamePart where
  name := "Box"
  arguments := some "< a::b<c> >"
  identifier := by decide
  bracketed := by decide
  word := List.all_eq_true.mp (by decide)
  closed := by decide

def item : NamePart where
  name := "Item"
  arguments := some "<x , y>"
  identifier := by decide
  bracketed := by decide
  word := List.all_eq_true.mp (by decide)
  closed := by decide

def base : BaseSyntax := .path true [outermost, box] item (by decide) (by decide)

-- a constant item, below a constant pointer, a pointer and an rvalue reference
def type : TypeSyntax := { base := base, constAfter := true, pointers := [true, false], reference := some true }

def text : String := " ::ns :: Box< a::b<c> >::Item\t<x , y>const*const * &&"

def record : TypeTree :=
  .named { spelling := "const ::ns::Box< a::b<c> >::Item<x , y>", isConst := true } .record none

def reported : TypeTree := .reference {} true (.pointer {} (.pointer { isConst := true } record))

end QualifiedPath

open QualifiedPath in
theorem qualified_path_read_as_reported :
    TypeRef.ofTree reported = { TypeRef.ofSpelling text with rawName := "" } ∧
      TypeRef.ofSpelling text =
        { rawName := text, name := "Item", scopePath := ["ns", "Box"], isConst := true, pointers := 2, references := 1,
          templateArguments := "<x,y>" } := by
  have hwritten : Spread type.tokens text.toList := .of_check (by decide)
  have hreported : type.Reported reported := by
    refine ⟨record, .path true rfl rfl (.of_check (by decide)), ?_⟩
    exact .reference true rfl (.pointer {} (.pointer { isConst := true } .base))
  obtain ⟨hagree, hmeaning⟩ := spelling_read_as_reported hwritten hreported
  exact ⟨hagree, hmeaning⟩

end SymbolIndex
