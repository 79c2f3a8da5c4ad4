import SymbolIndex.Proofs.Spacing
import SymbolIndex.Proofs.SplitJoin

/-!
# Written types

A written type is a base with `const` around it, pointers and perhaps a reference. Its base is a builtin type or a path
of names with template arguments. Without keywords and with its blanks squeezed, the base is read as what it refers to,
however it is spaced.
-/

namespace SymbolIndex

open Text

/-! ## Written types -/

/-- The text closes as many inner brackets as are open and, with its last character, the bracket around them. -/
def closes (depth : Nat) : List Char → Bool
  | [] => false
  | c :: s =>
    if c = '<' then closes (depth + 1) s
    else if c = '>' then if depth = 0 then s.isEmpty else closes (depth - 1) s
    else closes depth s

/-- A part of a path whose name is a word and whose template arguments are properly nested. -/
structure NamePart extends PathPart where
  word : ∀ c ∈ name.toList, isWord c = true
  closed : ∀ a ∈ arguments, closes 0 a.toList.tail = true

namespace NamePart

theorem named (part : NamePart) : part.name ≠ "" := part.identifier.nonempty

theorem nested (part : NamePart) (a : String) (h : a ∈ part.arguments) :
    ∃ s, a.toList = '<' :: s ∧ closes 0 s = true := by
  obtain ⟨s, hs⟩ := List.head?_eq_some_iff.mp (part.bracketed a h)
  have hclosed := part.closed a h
  rw [hs, List.tail_cons] at hclosed
  exact ⟨s, hs, hclosed⟩

def tokens (part : NamePart) : List (List Char) := part.name.toList :: part.arguments.toList.map String.toList

def Plain (part : NamePart) : Prop := ∀ token ∈ part.tokens, ∀ w ∈ words token, w ∉ typeKeywords

instance (part : NamePart) : Decidable part.Plain :=
  inferInstanceAs (Decidable (∀ token ∈ part.tokens, ∀ w ∈ words token, w ∉ typeKeywords))

def argumentText (part : NamePart) : String :=
  String.ofList ((part.arguments.getD "").toList.filter fun c => !isBlank c)

end NamePart

def rootTokens (rooted : Bool) : List (List Char) := if rooted then ["::".toList] else []

def pathTokens (outer : List NamePart) (last : NamePart) : List (List Char) :=
  outer.flatMap (fun part => part.tokens ++ ["::".toList]) ++ last.tokens

/-- What stands under the layers of a type: a builtin type, or a path that is not the name of one. -/
inductive BaseSyntax where
  | builtin (type : Builtin)
  | path (rooted : Bool) (outer : List NamePart) (last : NamePart) (plain : ∀ part ∈ outer ++ [last], part.Plain)
      (unlisted : rooted = false → outer = [] → last.arguments = none → last.name ∉ Builtin.names)

namespace BaseSyntax

def tokens : BaseSyntax → List (List Char)
  | builtin type => pieces type.name.toList
  | path rooted outer last _ _ => rootTokens rooted ++ pathTokens outer last

def meaning : BaseSyntax → TypeRef
  | builtin type => { name := type.name, fullName := type.name, kind := .builtin }
  | path _ outer last _ _ =>
    { name := last.name, scopePath := outer.map (·.name), templateArguments := last.argumentText }

end BaseSyntax

/-- Each pointer, from the base outwards, may be constant. The reference, if there is one, is the outermost layer and
may be an rvalue reference. -/
structure TypeSyntax where
  base : BaseSyntax
  constBefore : Bool := false
  constAfter : Bool := false
  pointers : List Bool := []
  reference : Option Bool := none

def constTokens (isConst : Bool) : List (List Char) := if isConst then ["const".toList] else []

def pointerTokens (pointers : List Bool) : List (List Char) :=
  pointers.flatMap fun isConst => ['*'] :: constTokens isConst

def referenceTokens : Option Bool → List (List Char)
  | none => []
  | some false => [['&']]
  | some true => [['&', '&']]

namespace TypeSyntax

def innerTokens (type : TypeSyntax) : List (List Char) :=
  constTokens type.constBefore ++ type.base.tokens ++ constTokens type.constAfter ++ pointerTokens type.pointers

def tokens (type : TypeSyntax) : List (List Char) := type.innerTokens ++ referenceTokens type.reference

def meaning (type : TypeSyntax) : TypeRef :=
  { type.base.meaning with
    isConst := type.constBefore || type.constAfter || type.pointers.any id
    pointers := type.pointers.length
    references := if type.reference.isSome then 1 else 0 }

end TypeSyntax

/-! ## Reading a path -/

theorem unmarked {p : Char → Bool} {c : Char} (hp : (p ':' || p '<' || p '>') = false) (h : p c = true) :
    c ≠ ':' ∧ c ≠ '<' ∧ c ≠ '>' := by
  refine ⟨?_, ?_, ?_⟩ <;>
  · rintro rfl
    simp [h] at hp

theorem isWord_unmarked {c : Char} (h : isWord c = true) : c ≠ ':' ∧ c ≠ '<' ∧ c ≠ '>' := unmarked (by decide) h

theorem isBlank_unmarked {c : Char} (h : isBlank c = true) : c ≠ ':' ∧ c ≠ '<' ∧ c ≠ '>' := unmarked (by decide) h

theorem closes_cons {depth : Nat} {c : Char} {s : List Char} : closes depth (c :: s) = true ↔
    c = '<' ∧ closes (depth + 1) s = true ∨ c = '>' ∧ depth = 0 ∧ s = [] ∨
      (c = '>' ∧ ∃ inner, depth = inner + 1 ∧ closes inner s = true) ∨ c ≠ '<' ∧ c ≠ '>' ∧ closes depth s = true := by
  rw [closes]
  by_cases hopen : c = '<'
  · simp [hopen]
  · by_cases hclose : c = '>'
    · cases depth <;> simp [hclose]
    · simp [hopen, hclose]

theorem getLast?_of_closes {s : List Char} : ∀ {depth : Nat}, closes depth s = true → s.getLast? = some '>' := by
  induction s with
  | nil => simp [closes]
  | cons c s ih =>
    intro depth h
    have hrest : ∀ {depth}, closes depth s = true → (c :: s).getLast? = some '>' := by
      intro depth h
      rw [List.getLast?_cons, ih h]
      rfl
    rcases closes_cons.mp h with ⟨-, h⟩ | ⟨rfl, -, rfl⟩ | ⟨-, _, -, h⟩ | ⟨-, -, h⟩
    · exact hrest h
    · rfl
    · exact hrest h
    · exact hrest h

theorem closes_squeeze {s : List Char} : ∀ {depth : Nat} {gap : Bool}, closes depth s = true →
    closes depth (squeeze gap s) = true := by
  have hspace : ∀ depth t, closes depth (' ' :: t) = closes depth t := fun _ _ => rfl
  induction s with
  | nil => simp [closes]
  | cons c s ih =>
    intro depth gap h
    rw [squeeze]
    by_cases hc : isBlank c = true
    · obtain ⟨-, hopen, hclose⟩ := isBlank_unmarked hc
      rw [if_pos hc]
      apply ih
      simpa [closes_cons, hopen, hclose] using h
    · have hkept : closes depth (c :: squeeze false s) = true := by
        rw [closes_cons]
        rcases closes_cons.mp h with ⟨hopen, h⟩ | ⟨hclose, hdepth, rfl⟩ | ⟨hclose, inner, hdepth, h⟩ | ⟨hopen, hclose, h⟩
        · exact Or.inl ⟨hopen, ih h⟩
        · exact Or.inr (Or.inl ⟨hclose, hdepth, rfl⟩)
        · exact Or.inr (Or.inr (Or.inl ⟨hclose, inner, hdepth, ih h⟩))
        · exact Or.inr (Or.inr (Or.inr ⟨hopen, hclose, ih h⟩))
      rw [if_neg hc]
      cases gap with
      | true => rw [if_pos rfl, hspace, hkept]
      | false => exact hkept

theorem splitTemplateArguments_plain {name : List Char} (h : ∀ c ∈ name, c ≠ '<') :
    splitTemplateArguments (String.ofList name) = (String.ofList name, "") := by
  have hdrop : name.dropWhile (· != '<') = [] := by
    rw [← List.append_nil name, List.dropWhile_append_of_pos (by simpa using h)]
    rfl
  rw [splitTemplateArguments, String.toList_ofList, hdrop]

theorem splitTemplateArguments_open {before s : List Char} (h : ∀ c ∈ before, c ≠ '<') :
    splitTemplateArguments (String.ofList (before ++ '<' :: s)) =
      (String.ofList (trim before), String.ofList (('<' :: s).filter (· != ' '))) := by
  have hdrop : (before ++ '<' :: s).dropWhile (· != '<') = '<' :: s := by
    rw [List.dropWhile_append_of_pos (by simpa using h)]
    rfl
  have htake : (before ++ '<' :: s).takeWhile (· != '<') = before := by
    rw [List.takeWhile_append_of_pos (by simpa using h)]
    simp
  rw [splitTemplateArguments, String.toList_ofList, hdrop, htake]

namespace Scope

theorem cutFrom_closes {s : List Char} (rest : List Char) : ∀ {depth : Nat}, closes depth s = true → ∀ part,
    cutFrom (depth + 1 : Nat) part (s ++ rest) = cutFrom 0 (part ++ s) rest := by
  induction s with
  | nil => simp [closes]
  | cons c s ih =>
    intro depth h part
    rw [List.cons_append, cutFrom_inside (by omega), List.append_cons part c s]
    rcases closes_cons.mp h with ⟨rfl, h⟩ | ⟨rfl, rfl, rfl⟩ | ⟨rfl, inner, rfl, h⟩ | ⟨hopen, hclose, h⟩
    · rw [← ih h]
      rfl
    · rw [List.append_nil]
      rfl
    · rw [← ih h]
      have htilt : tilt '>' = -1 := by decide
      congr 1
      omega
    · have htilt : tilt c = 0 := by simp [tilt, hopen, hclose]
      rw [htilt, Int.add_zero, ih h]

/-- The text goes into the current part, and brackets are balanced behind it. -/
def Level (s : List Char) : Prop := ∀ part rest, cutFrom 0 part (s ++ rest) = cutFrom 0 (part ++ s) rest

theorem Level.append {a b : List Char} (ha : Level a) (hb : Level b) : Level (a ++ b) := by
  intro part rest
  rw [List.append_assoc, ha, hb, List.append_assoc]

theorem level_bracketed {s : List Char} (h : closes 0 s = true) : Level ('<' :: s) := by
  intro part rest
  have hopen : cutFrom 0 part ('<' :: (s ++ rest)) = cutFrom 1 (part ++ ['<']) (s ++ rest) := by
    rw [cutFrom]
    · rfl
    · intro t hne
      exact absurd hne (by decide)
  have hclose := cutFrom_closes rest h (part ++ ['<'])
  rw [List.cons_append, hopen, List.append_cons part '<' s, ← hclose]
  rfl

theorem level_plain {s : List Char} (h : ∀ c ∈ s, c ≠ ':' ∧ c ≠ '<' ∧ c ≠ '>') : Level s :=
  fun part rest => cutFrom_word s rest h part

theorem level_blank {s : List Char} (h : ∀ c ∈ s, isBlank c = true) : Level s :=
  level_plain fun c hc => isBlank_unmarked (h c hc)

theorem Level.cut {s : List Char} (h : Level s) (rest : List Char) :
    cutFrom 0 [] (s ++ ("::".toList ++ rest)) = s :: cutFrom 0 [] rest := by
  have hsep : cutFrom 0 s ("::".toList ++ rest) = s :: cutFrom 0 [] rest := by
    rw [show "::".toList ++ rest = ':' :: ':' :: rest from rfl, cutFrom, if_pos rfl]
  rw [h, List.nil_append, hsep]

section
variable {before s after : List Char} (hb : ∀ c ∈ before, isBlank c = true) (ha : ∀ c ∈ after, isBlank c = true)

include hb in
theorem splitChars_rooted (rest : List Char) : splitChars (before ++ ("::".toList ++ rest)) = splitChars rest := by
  rw [splitChars, (level_blank hb).cut, List.map_cons, trim_blanks hb, List.filter_cons_of_neg (by simp)]
  rfl

variable (level : Level s)
include hb ha level

theorem Level.pad : Level (before ++ (s ++ after)) := (level_blank hb).append (level.append (level_blank ha))

variable (solid : Solid s)
include solid

theorem splitChars_cons (rest : List Char) :
    splitChars (before ++ (s ++ (after ++ ("::".toList ++ rest)))) = s :: splitChars rest := by
  have htext : before ++ (s ++ (after ++ ("::".toList ++ rest))) = before ++ (s ++ after) ++ ("::".toList ++ rest) := by
    simp only [List.append_assoc]
  rw [htext, splitChars, (Level.pad hb ha level).cut, List.map_cons, solid.trim_pad hb ha,
    List.filter_cons_of_pos (by simpa using solid.nonempty)]
  rfl

theorem splitChars_last : splitChars (before ++ (s ++ after)) = [s] := by
  have hcut : cutFrom 0 [] (before ++ (s ++ after)) = [before ++ (s ++ after)] := by
    have hend := Level.pad hb ha level [] []
    rw [List.append_nil, List.nil_append] at hend
    rw [hend, cutFrom]
  rw [splitChars, hcut, List.map_singleton, solid.trim_pad hb ha, List.filter_cons_of_pos (by simpa using solid.nonempty),
    List.filter_nil]

end

end Scope

namespace NamePart

variable (part : NamePart)

theorem solid_name : Solid part.name.toList :=
  solid_of_unblank (by simpa using part.named) fun c hc => isBlank_of_isWord (part.word c hc)

theorem mem_tokens {token : List Char} :
    token ∈ part.tokens ↔ token = part.name.toList ∨ ∃ a ∈ part.arguments, token = a.toList := by
  simp [tokens, eq_comm]

variable {part} in
theorem getLast?_arguments {a : String} (h : a ∈ part.arguments) : a.toList.getLast? = some '>' := by
  obtain ⟨s, hs, hcloses⟩ := part.nested a h
  rw [hs, List.getLast?_cons, getLast?_of_closes hcloses]
  rfl

theorem solid_tokens : ∀ token ∈ part.tokens, Solid token := by
  intro token ht
  rcases part.mem_tokens.mp ht with rfl | ⟨a, ha, rfl⟩
  · exact part.solid_name
  · obtain ⟨s, hs, -⟩ := part.nested a ha
    refine ⟨by simp [hs], ?_, ?_⟩
    · rw [hs]
      simp [show isBlank '<' = false by decide]
    · rw [getLast?_arguments ha]
      simp [show isBlank '>' = false by decide]

theorem squeeze_bracket (s : List Char) : Text.squeeze false ('<' :: s) = '<' :: Text.squeeze false s := by
  rw [Text.squeeze, show isBlank '<' = false by decide]
  rfl

def squeeze : NamePart where
  name := part.name
  arguments := part.arguments.map fun a => String.ofList (Text.squeeze false a.toList)
  identifier := part.identifier
  word := part.word
  bracketed := by
    intro a ha
    obtain ⟨loose, hloose, rfl⟩ := Option.map_eq_some_iff.mp ha
    obtain ⟨s, hs, -⟩ := part.nested loose hloose
    rw [String.toList_ofList, hs, squeeze_bracket, List.head?_cons]
  closed := by
    intro a ha
    obtain ⟨loose, hloose, rfl⟩ := Option.map_eq_some_iff.mp ha
    obtain ⟨s, hs, hcloses⟩ := part.nested loose hloose
    rw [String.toList_ofList, hs, squeeze_bracket, List.tail_cons]
    exact closes_squeeze hcloses

theorem tokens_squeeze : part.squeeze.tokens = part.tokens.map (Text.squeeze false) := by
  have hname : Text.squeeze false part.name.toList = part.name.toList :=
    squeeze_unblank fun c hc => isBlank_of_isWord (part.word c hc)
  unfold tokens
  rw [List.map_cons, hname]
  cases h : part.arguments <;> simp [squeeze, h]

def shown : String × String :=
  (part.name, String.ofList ((part.arguments.getD "").toList.filter (· != ' ')))

theorem shown_squeeze : part.squeeze.shown = (part.name, part.argumentText) := by
  cases h : part.arguments <;> simp [shown, argumentText, squeeze, h, filter_squeeze]

theorem spread_tokens {rest : List (List Char)} {text : List Char} (h : Spread (part.tokens ++ rest) text) :
    ∃ before s after, text = before ++ (s ++ after) ∧ (∀ c ∈ before, isBlank c = true) ∧ Spread rest after ∧
      Scope.Level s ∧ Solid s ∧ splitTemplateArguments (String.ofList s) = part.shown := by
  have hplain : ∀ c ∈ part.name.toList, c ≠ ':' ∧ c ≠ '<' ∧ c ≠ '>' := fun c hc => isWord_unmarked (part.word c hc)
  unfold tokens at h
  cases h with
  | @cons before name text _ blank parted hrest =>
    cases harguments : part.arguments with
    | none =>
      rw [harguments] at hrest
      refine ⟨before, part.name.toList, text, rfl, blank, hrest, Scope.level_plain hplain, part.solid_name, ?_⟩
      rw [splitTemplateArguments_plain fun c hc => (hplain c hc).2.1, shown, harguments, String.ofList_toList]
      rfl
    | some a =>
      obtain ⟨s, hs, hcloses⟩ := part.nested a harguments
      have hsolid : Solid a.toList := part.solid_tokens _ (part.mem_tokens.mpr (Or.inr ⟨a, harguments, rfl⟩))
      rw [harguments] at hrest
      cases hrest with
      | @cons gap _ after _ hgap _ hrest =>
        refine ⟨before, part.name.toList ++ (gap ++ a.toList), after, by simp, blank, hrest, ?_,
          part.solid_name.append hsolid gap, ?_⟩
        · rw [hs]
          exact (Scope.level_plain hplain).append ((Scope.level_blank hgap).append (Scope.level_bracketed hcloses))
        · have hbefore : ∀ c ∈ part.name.toList ++ gap, c ≠ '<' := by
            rw [List.forall_mem_append]
            exact ⟨fun c hc => (hplain c hc).2.1, fun c hc => (isBlank_unmarked (hgap c hc)).2.1⟩
          have htrim : trim ([] ++ (part.name.toList ++ gap)) = part.name.toList :=
            part.solid_name.trim_pad (by simp) hgap
          rw [List.nil_append] at htrim
          rw [← List.append_assoc, hs, splitTemplateArguments_open hbefore, htrim, shown, harguments,
            String.ofList_toList, Option.getD_some, hs]

end NamePart

theorem split_pathTokens {last : NamePart} : ∀ {outer : List NamePart} {text : List Char},
    Spread (pathTokens outer last) text →
      (Scope.splitChars text).map (fun s => splitTemplateArguments (String.ofList s)) =
        (outer ++ [last]).map NamePart.shown
  | [], text, h => by
    have htokens : pathTokens [] last = last.tokens ++ [] := by simp [pathTokens]
    rw [htokens] at h
    obtain ⟨before, s, after, rfl, hbefore, hafter, level, solid, hshown⟩ := last.spread_tokens h
    cases hafter with
    | nil blank =>
      rw [Scope.splitChars_last hbefore blank level solid, List.map_singleton, hshown]
      rfl
  | part :: outer, text, h => by
    have htokens : pathTokens (part :: outer) last = part.tokens ++ "::".toList :: pathTokens outer last := by
      simp [pathTokens]
    rw [htokens] at h
    obtain ⟨before, s, after, rfl, hbefore, hafter, level, solid, hshown⟩ := part.spread_tokens h
    cases hafter with
    | cons blank parted rest =>
      rw [Scope.splitChars_cons hbefore blank level solid, List.map_cons, hshown, split_pathTokens rest]
      rfl

theorem pathTokens_squeeze (outer : List NamePart) (last : NamePart) :
    (pathTokens outer last).map (squeeze false) = pathTokens (outer.map NamePart.squeeze) last.squeeze := by
  have hsep : squeeze false "::".toList = "::".toList := by decide
  rw [pathTokens, List.map_append, List.map_flatMap, pathTokens, List.flatMap_map, last.tokens_squeeze]
  simp only [List.map_append, List.map_singleton, hsep, NamePart.tokens_squeeze]

theorem readScopedName_eq (text : String) :
    readScopedName text =
      ((((Scope.split text).map splitTemplateArguments).dropLast.map Prod.fst),
        ((Scope.split text).map splitTemplateArguments).getLast?.getD ("", "")) := by
  rw [readScopedName, ← List.map_dropLast, List.map_map, List.getLast?_map]
  cases (Scope.split text).getLast? <;> rfl

theorem readScopedName_path {rooted : Bool} {outer : List NamePart} {last : NamePart} {text : List Char}
    (h : Spread (rootTokens rooted ++ pathTokens outer last) text) :
    readScopedName (String.ofList text) = (outer.map (·.name), last.shown) := by
  have hsplit : (Scope.splitChars text).map (fun s => splitTemplateArguments (String.ofList s)) =
      (outer ++ [last]).map NamePart.shown := by
    cases rooted with
    | false => exact split_pathTokens h
    | true =>
      cases h with
      | cons blank parted rest =>
        rw [Scope.splitChars_rooted blank]
        exact split_pathTokens rest
  have hparts : (Scope.split (String.ofList text)).map splitTemplateArguments = (outer ++ [last]).map NamePart.shown := by
    rw [← hsplit, Scope.split, String.toList_ofList, List.map_map]
    rfl
  rw [readScopedName_eq, hparts, List.map_append, List.map_singleton, List.dropLast_concat, List.getLast?_concat,
    List.map_map]
  rfl

/-! ## Reading a base -/

theorem Spread.mask {isConst : Bool} {tokens : List (List Char)} {text : List Char}
    (h : Spread (constTokens isConst ++ tokens) text) (plain : ∀ token ∈ tokens, ∀ w ∈ words token, w ∉ typeKeywords) :
    Spread tokens (maskKeywordsFrom [] text) := by
  have hmask : ∀ {text}, Spread tokens text → maskKeywordsFrom [] text = text := by
    intro text h
    apply maskKeywordsFrom_eq_self
    intro w hw
    have hwords : w ∈ tokens.flatMap words := h.words_eq ▸ hw
    obtain ⟨token, ht, hw⟩ := List.mem_flatMap.mp hwords
    exact plain token ht w hw
  cases isConst with
  | false =>
    rw [hmask h]
    exact h
  | true =>
    cases h with
    | @cons blanks _ text _ blank parted rest =>
      have hblanks : maskKeywordsFrom [] blanks = blanks := by
        apply maskKeywordsFrom_eq_self
        rw [← runs, runs_of_none fun c hc => isWord_of_isBlank (blank c hc)]
        simp
      have hconst : maskKeywordsFrom [] "const".toList = [' '] := by decide
      rw [maskKeywordsFrom_parted (by simp) (.of_blank blank), maskKeywordsFrom_parted (by simp) parted, hblanks, hconst,
        hmask rest]
      exact (rest.pad (by simp [isBlank_space])).pad blank

theorem Builtin.pieces_name (type : Builtin) :
    (∀ token ∈ pieces type.name.toList, token ≠ [] ∧ (∀ c ∈ token, isWord c = true) ∧ token ∉ typeKeywords) ∧
      [' '].intercalate (pieces type.name.toList) = type.name.toList := by
  have hall : (pieces type.name.toList).all (fun token =>
      !token.isEmpty && token.all isWord && !typeKeywords.contains token) = true := by
    cases type <;> decide
  refine ⟨?_, by cases type <;> decide⟩
  intro token ht
  simpa [and_assoc] using List.all_eq_true.mp hall token ht

theorem Builtin.names_plain : ∀ name ∈ names, ':' ∉ name.toList ∧ '<' ∉ name.toList := by
  decide

namespace BaseSyntax

variable (base : BaseSyntax)

theorem mem_path {rooted : Bool} {outer : List NamePart} {last : NamePart} {token : List Char}
    (h : token ∈ rootTokens rooted ++ pathTokens outer last) :
    token = "::".toList ∨ ∃ part ∈ outer ++ [last], token ∈ part.tokens := by
  rcases List.mem_append.mp h with h | h
  · cases rooted with
    | false => simp [rootTokens] at h
    | true => exact Or.inl (List.mem_singleton.mp h)
  · rcases List.mem_append.mp h with h | h
    · obtain ⟨part, hpart, ht⟩ := List.mem_flatMap.mp h
      rcases List.mem_append.mp ht with ht | ht
      · exact Or.inr ⟨part, List.mem_append_left _ hpart, ht⟩
      · exact Or.inl (List.mem_singleton.mp ht)
    · exact Or.inr ⟨last, by simp, h⟩

theorem solid_tokens : ∀ token ∈ base.tokens, Solid token := by
  intro token ht
  cases base with
  | builtin type =>
    obtain ⟨nonempty, word, -⟩ := type.pieces_name.1 token ht
    exact solid_of_unblank nonempty fun c hc => isBlank_of_isWord (word c hc)
  | path rooted outer last plain unlisted =>
    rcases mem_path ht with rfl | ⟨part, -, hpart⟩
    · exact solid_of_all (by decide)
    · exact part.solid_tokens token hpart

theorem plain_tokens : ∀ token ∈ base.tokens, ∀ w ∈ words token, w ∉ typeKeywords := by
  intro token ht
  cases base with
  | builtin type =>
    obtain ⟨nonempty, word, hkeyword⟩ := type.pieces_name.1 token ht
    rw [words, runs_of_all nonempty word]
    simpa using hkeyword
  | path rooted outer last plain unlisted =>
    rcases mem_path ht with rfl | ⟨part, hmem, hpart⟩
    · have hwords : words "::".toList = [] := by decide
      rw [hwords]
      simp
    · exact plain part hmem token hpart

variable {base} {isConst : Bool} {text : String}

theorem stripKeywords_builtin {type : Builtin} (h : Spread (constTokens isConst ++ (builtin type).tokens) text.toList) :
    stripKeywords text = type.name := by
  have hspec := type.pieces_name
  have hpieces := (h.mask (builtin type).plain_tokens).pieces_eq (fun token ht => (hspec.1 token ht).1)
    fun token ht => (hspec.1 token ht).2.1
  rw [stripKeywords, stripKeywordChars, hpieces]
  exact (congrArg String.ofList hspec.2).trans (String.ofList_toList ..)

section
variable {rooted : Bool} {outer : List NamePart} {last : NamePart} {plain : ∀ part ∈ outer ++ [last], part.Plain}
  {unlisted : rooted = false → outer = [] → last.arguments = none → last.name ∉ Builtin.names}
  (h : Spread (constTokens isConst ++ (path rooted outer last plain unlisted).tokens) text.toList)
include h

theorem spread_stripKeywords :
    Spread (rootTokens rooted ++ pathTokens (outer.map NamePart.squeeze) last.squeeze)
      (stripKeywordChars text.toList) := by
  have hspread := (h.mask (path rooted outer last plain unlisted).plain_tokens).intercalate_pieces (solid_tokens _)
  rw [tokens, List.map_append, pathTokens_squeeze] at hspread
  cases rooted <;> exact hspread

theorem readScopedName_stripKeywords :
    readScopedName (stripKeywords text) = (outer.map (·.name), last.name, last.argumentText) := by
  rw [stripKeywords, readScopedName_path (spread_stripKeywords h), last.shown_squeeze, List.map_map]
  rfl

theorem stripKeywords_unlisted : stripKeywords text ∉ Builtin.names := by
  intro hlisted
  obtain ⟨hcolon, hbracket⟩ := Builtin.names_plain _ hlisted
  rw [stripKeywords, String.toList_ofList] at hcolon hbracket
  have hspread := spread_stripKeywords h
  -- a builtin's name has neither colons nor brackets, so nothing is left but a single bare name
  have hseparated : "::".toList ∉ rootTokens rooted ++ pathTokens (outer.map NamePart.squeeze) last.squeeze :=
    fun hm => hcolon (hspread.mem hm (by decide))
  cases rooted with
  | true => exact hseparated (by simp [rootTokens])
  | false =>
    cases outer with
    | cons part outer => exact hseparated (by simp [pathTokens])
    | nil =>
      cases harguments : last.arguments with
      | some a =>
        have hloose : a.toList ∈ last.tokens := last.mem_tokens.mpr (Or.inr ⟨a, harguments, rfl⟩)
        have htoken : squeeze false a.toList ∈ last.squeeze.tokens := by
          rw [last.tokens_squeeze]
          exact List.mem_map_of_mem hloose
        obtain ⟨s, hs, -⟩ := last.nested a harguments
        have hopen : '<' ∈ squeeze false a.toList := by
          rw [hs, squeeze, show isBlank '<' = false by decide]
          simp
        exact hbracket (hspread.mem htoken hopen)
      | none =>
        have htokens : (path false [] last plain unlisted).tokens = [last.name.toList] := by
          simp [tokens, rootTokens, pathTokens, NamePart.tokens, harguments]
        have hmask := h.mask (path false [] last plain unlisted).plain_tokens
        rw [htokens] at hmask
        have hpieces := hmask.pieces_eq (by simp [last.named]) (by simpa using last.word)
        have hname : stripKeywords text = last.name := by
          rw [stripKeywords, stripKeywordChars, hpieces]
          simp
        exact unlisted rfl rfl harguments (hname ▸ hlisted)

end

end BaseSyntax

end SymbolIndex
