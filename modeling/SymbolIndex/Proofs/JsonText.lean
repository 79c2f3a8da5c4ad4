import Mathlib.Data.List.Forall2
import SymbolIndex.Database.Export
import SymbolIndex.Proofs.JsonGrammar
import SymbolIndex.Proofs.Lists

/-!
# The text of a database

What is rendered of a value reads as that value and nothing else, in whatever layout. So the text of a
database gives back all that was written into it, and two databases with one text have the same records.
-/

namespace SymbolIndex

namespace Json

/-! ## Digits -/

theorem hexDigit?_digitChar : ∀ n < 16, hexDigit? n.digitChar = some n := by decide

theorem hexValue?_concat (digits : List Char) (d : Char) :
    hexValue? (digits ++ [d]) = (hexValue? digits).bind fun n => (hexDigit? d).map (16 * n + ·) := by
  simp [hexValue?, List.foldlM_append]

theorem hexValue?_toDigits (n : Nat) : hexValue? (Nat.toDigits 16 n) = some n := by
  induction n using Nat.strongRecOn with
  | _ n ih =>
    by_cases hn : n < 16
    · rw [Nat.toDigits_of_lt_base hn]
      simp [hexValue?, hexDigit?_digitChar n hn]
    · rw [Nat.toDigits_of_base_le (by decide) (by omega), hexValue?_concat, ih (n / 16) (by omega),
        hexDigit?_digitChar (n % 16) (by omega)]
      simp only [Option.bind_some, Option.map_some, Option.some.injEq]
      omega

theorem hexValue?_zeros_append (k : Nat) (digits : List Char) :
    hexValue? (List.replicate k '0' ++ digits) = hexValue? digits := by
  induction k with
  | zero => rfl
  | succ k ih =>
    rw [← ih, List.replicate_succ, List.cons_append]
    have hzero : hexDigit? '0' = some 0 := by decide
    simp [hexValue?, hzero]

theorem hexDigits_four {n : Nat} (h : n < 0x10000) :
    ∃ d₁ d₂ d₃ d₄, Text.hexDigits 4 n = [d₁, d₂, d₃, d₄] ∧ hexValue? [d₁, d₂, d₃, d₄] = some n := by
  have hvalue : hexValue? (Text.hexDigits 4 n) = some n := by
    simp only [Text.hexDigits]
    rw [hexValue?_zeros_append, hexValue?_toDigits]
  have hlength : (Text.hexDigits 4 n).length = 4 := by
    have hle : (Nat.toDigits 16 n).length ≤ 4 := (Nat.length_toDigits_le_iff (by decide) (by decide)).mpr h
    simp only [Text.hexDigits, List.length_append, List.length_replicate]
    omega
  obtain ⟨d₁, d₂, d₃, d₄, hdigits⟩ := List.length_eq_four.mp hlength
  exact ⟨d₁, d₂, d₃, d₄, hdigits, hdigits ▸ hvalue⟩

theorem toDigits_head_ne_zero {n : Nat} (hn : n ≠ 0) : ∃ c ds, Nat.toDigits 10 n = c :: ds ∧ c ≠ '0' := by
  induction n using Nat.strongRecOn with
  | _ n ih =>
    by_cases hlt : n < 10
    · have hall : ∀ k < 10, k ≠ 0 → k.digitChar ≠ '0' := by decide
      exact ⟨_, _, Nat.toDigits_of_lt_base hlt, hall n hlt hn⟩
    · obtain ⟨c, ds, hdigits, hc⟩ := ih (n / 10) (by omega) (by omega)
      refine ⟨c, ds ++ [(n % 10).digitChar], ?_, hc⟩
      rw [Nat.toDigits_of_base_le (by decide) (by omega), hdigits, List.cons_append]

theorem numeral_toDigits (n : Nat) : Numeral (Nat.toDigits 10 n) := by
  by_cases hn : n = 0
  · subst hn
    exact .zero
  · obtain ⟨c, ds, hdigits, hc⟩ := toDigits_head_ne_zero hn
    have hall : ∀ d ∈ c :: ds, d.isDigit = true := by
      intro d hd
      exact Nat.isDigit_of_mem_toDigits (by decide) (by decide) (hdigits ▸ hd)
    rw [hdigits]
    exact .digits (hall c (List.mem_cons_self ..)) hc fun d hd => hall d (List.mem_cons_of_mem _ hd)

theorem ascii_toDigits {b : Nat} (hb : 1 < b) (hb' : b ≤ 16) (n : Nat) :
    ∀ c ∈ Nat.toDigits b n, c.toNat < 128 := by
  have hdigit : ∀ k < 16, (Nat.digitChar k).toNat < 128 := by decide
  induction n using Nat.strongRecOn with
  | _ n ih =>
    intro c hc
    rw [Nat.toDigits_eq_if hb] at hc
    split at hc
    · rename_i hn
      rw [List.mem_singleton.mp hc]
      exact hdigit n (Nat.lt_of_lt_of_le hn hb')
    · rename_i hn
      rcases List.mem_append.mp hc with hc | hc
      · exact ih (n / b) (Nat.div_lt_self (by omega) hb) c hc
      · rw [List.mem_singleton.mp hc]
        exact hdigit _ (Nat.lt_of_lt_of_le (Nat.mod_lt n (by omega)) hb')

/-! ## White space -/

theorem blank_append {w : List Char} (hw : ∀ c ∈ w, isBlank c = true) (s : List Char) : Blank (w ++ s) s := by
  induction w with
  | nil => exact .here s
  | cons c w ih =>
    obtain ⟨hc, hw⟩ := List.forall_mem_cons.mp hw
    exact .past hc (ih hw)

theorem not_isDigit_of_isBlank {c : Char} (h : isBlank c = true) : c.isDigit = false := by
  simp only [isBlank, Bool.or_eq_true, beq_iff_eq] at h
  rcases h with ((rfl | rfl) | rfl) | rfl <;> rfl

theorem Blank.ends {s t : List Char} {c : Char} (h : Blank s (c :: t)) (hc : c.isDigit = false) : Ends s := by
  cases h with
  | here =>
    intro d hd
    cases hd
    exact hc
  | past blank =>
    intro d hd
    cases hd
    exact not_isDigit_of_isBlank blank

theorem blank_lead (layout : Layout) (level : Nat) : ∀ c ∈ (layout.lead level).toList, isBlank c = true := by
  cases layout with
  | line => simp [Layout.lead]
  | block indent =>
    simp only [Layout.lead, String.toList_append, String.toList_ofList]
    refine List.forall_mem_append.mpr ⟨List.forall_mem_singleton.mpr rfl, ?_⟩
    intro c hc
    rw [List.eq_of_mem_replicate hc]
    rfl

theorem toList_between (layout : Layout) (level : Nat) :
    ∃ w, (layout.between level).toList = ',' :: w ∧ ∀ c ∈ w, isBlank c = true := by
  cases layout with
  | line => exact ⟨[' '], by rw [Layout.between]; decide, List.forall_mem_singleton.mpr rfl⟩
  | block indent =>
    refine ⟨((Layout.block indent).lead level).toList, ?_, blank_lead _ level⟩
    rw [Layout.between, String.toList_append]
    rfl

theorem ascii_of_isBlank {c : Char} (h : isBlank c = true) : c.toNat < 128 := by
  simp only [isBlank, Bool.or_eq_true, beq_iff_eq] at h
  rcases h with ((rfl | rfl) | rfl) | rfl <;> decide

/-! ## Texts that stand for something -/

/-- An ASCII text that reads as something, after white space and before what does not go on with it. -/
structure Stands {α : Type} (E : List Char → α → List Char → Prop) (text : List Char) (a : α) : Prop where
  ascii : ∀ c ∈ text, c.toNat < 128
  reads : ∀ {before t : List Char}, (∀ c ∈ before, isBlank c = true) → Ends t → E (before ++ (text ++ t)) a t

theorem Stands.value {text : List Char} {v : Json} (ascii : ∀ c ∈ text, c.toNat < 128)
    (h : ∀ t, Ends t → Value (text ++ t) v t) : Stands Item text v where
  ascii := ascii
  reads := fun hbefore ends => .mk (blank_append hbefore _) (h _ ends)

theorem stands_word (word : String) {v : Json} (ascii : ∀ c ∈ word.toList, c.toNat < 128)
    (h : ∀ t, Value (word.toList ++ t) v t) : Stands Item word.toList v := .value ascii fun t _ => h t

theorem stands_int (n : Int) : Stands Item n.repr.toList (.int n) := by
  by_cases hn : 0 ≤ n
  · have htext : n.repr.toList = Nat.toDigits 10 n.toNat := by
      rw [Int.repr_eq_if, if_pos hn, Nat.repr_eq_ofList_toDigits, String.toList_ofList]
    rw [htext]
    refine .value (ascii_toDigits (by decide) (by decide) _) ?_
    intro t ends
    have hnumber := Number.natural rfl (numeral_toDigits n.toNat) ends
    rw [Nat.ofDigitChars_ten_toDigits, Int.toNat_of_nonneg hn] at hnumber
    exact .int hnumber
  · have htext : n.repr.toList = '-' :: Nat.toDigits 10 (-n).toNat := by
      rw [Int.repr_eq_if, if_neg hn, Nat.repr_eq_ofList_toDigits]
      simp
    rw [htext]
    apply Stands.value
    · exact List.forall_mem_cons.mpr ⟨by decide, ascii_toDigits (by decide) (by decide) _⟩
    · intro t ends
      have hnumber := Number.negative rfl (numeral_toDigits (-n).toNat) ends
      rw [Nat.ofDigitChars_ten_toDigits, Int.toNat_of_nonneg (by omega), Int.neg_neg] at hnumber
      exact .int hnumber

/-! ### Strings -/

theorem ascii_escapeUnit (n : Nat) : ∀ c ∈ escapeUnit n, c.toNat < 128 := by
  refine List.forall_mem_cons.mpr ⟨by decide, List.forall_mem_cons.mpr ⟨by decide, ?_⟩⟩
  intro c hc
  simp only [Text.hexDigits] at hc
  rcases List.mem_append.mp hc with hc | hc
  · rw [List.eq_of_mem_replicate hc]
    decide
  · exact ascii_toDigits (by decide) (by decide) n c hc

inductive Escaped (c : Char) : List Char → Prop where
  | letter {e : Char} (stands : (e, c) ∈ letterEscapes) : Escaped c ['\\', e]
  | plain (printable : 0x20 ≤ c.toNat ∧ c.toNat < 0x7F) (quote : c ≠ '"') (escape : c ≠ '\\') : Escaped c [c]
  | unit (basic : c.toNat < 0x10000) : Escaped c (escapeUnit c.toNat)
  | pair (beyond : 0x10000 ≤ c.toNat) :
      Escaped c (escapeUnit (surrogates c.toNat).1 ++ escapeUnit (surrogates c.toNat).2)

theorem escaped (c : Char) : Escaped c (escapeChar c) := by
  unfold escapeChar
  split
  · rename_i hc
    simp only [Bool.or_eq_true, beq_iff_eq] at hc
    rcases hc with rfl | rfl
    · exact .letter (by decide)
    · exact .letter (by decide)
  rename_i hmarks
  simp only [Bool.or_eq_true, beq_iff_eq, not_or] at hmarks
  split
  · rename_i hc
    simp only [Bool.and_eq_true, decide_eq_true_eq] at hc
    exact .plain hc hmarks.1 hmarks.2
  split
  · rename_i hc
    rw [beq_iff_eq.mp hc]
    exact .letter (by decide)
  split
  · rename_i hc
    rw [beq_iff_eq.mp hc]
    exact .letter (by decide)
  split
  · rename_i hc
    rw [beq_iff_eq.mp hc]
    exact .letter (by decide)
  split
  · rename_i hc
    obtain rfl : c = '\x08' := Char.toNat_inj.mp hc
    exact .letter (by decide)
  split
  · rename_i hc
    obtain rfl : c = '\x0c' := Char.toNat_inj.mp hc
    exact .letter (by decide)
  split
  · rename_i hc
    exact .unit hc
  · rename_i hc
    exact .pair (Nat.le_of_not_lt hc)

theorem Escaped.ascii {c : Char} {text : List Char} (h : Escaped c text) : ∀ d ∈ text, d.toNat < 128 := by
  cases h with
  | letter stands =>
    have hletters : ∀ p ∈ letterEscapes, p.1.toNat < 128 := by decide
    exact List.forall_mem_cons.mpr ⟨by decide, List.forall_mem_singleton.mpr (hletters _ stands)⟩
  | plain printable quote escape =>
    rw [List.forall_mem_singleton]
    omega
  | unit basic => exact ascii_escapeUnit _
  | pair beyond => exact List.forall_mem_append.mpr ⟨ascii_escapeUnit _, ascii_escapeUnit _⟩

theorem surrogates_stand {c : Char} (h : 0x10000 ≤ c.toNat) :
    Surrogates (surrogates c.toNat).1 (surrogates c.toNat).2 c := by
  have hmax : c.toNat < 0x110000 := by
    have hvalid := c.valid
    simp only [UInt32.isValidChar, Nat.isValidChar] at hvalid
    simp only [Char.toNat] at h ⊢
    omega
  simp only [surrogates]
  constructor <;> omega

theorem chars_escapeUnit {n : Nat} (hn : n < 0x10000) (s : List Char) :
    ∃ d₁ d₂ d₃ d₄, escapeUnit n ++ s = '\\' :: 'u' :: d₁ :: d₂ :: d₃ :: d₄ :: s ∧
      hexValue? [d₁, d₂, d₃, d₄] = some n := by
  obtain ⟨d₁, d₂, d₃, d₄, hdigits, hvalue⟩ := hexDigits_four hn
  refine ⟨d₁, d₂, d₃, d₄, ?_, hvalue⟩
  rw [escapeUnit, hdigits]
  rfl

theorem Escaped.chars {c : Char} {text s x t : List Char} (h : Escaped c text) (more : Chars s x t) :
    Chars (text ++ s) (c :: x) t := by
  cases h with
  | letter stands => exact .letter stands more
  | plain printable quote escape => exact .plain printable.1 quote escape more
  | unit basic =>
    obtain ⟨d₁, d₂, d₃, d₄, htext, hvalue⟩ := chars_escapeUnit basic s
    rw [htext]
    exact .unit hvalue more
  | pair beyond =>
    have stands := surrogates_stand beyond
    obtain ⟨e₁, e₂, e₃, e₄, htext', hvalue'⟩ := chars_escapeUnit (Nat.lt_trans stands.low.2 (by decide)) s
    obtain ⟨d₁, d₂, d₃, d₄, htext, hvalue⟩ := chars_escapeUnit (Nat.lt_trans stands.high.2 (by decide))
      (escapeUnit (surrogates c.toNat).2 ++ s)
    rw [List.append_assoc, htext, htext']
    exact .pair hvalue hvalue' stands more

theorem chars_escaped (x t : List Char) : Chars (x.flatMap escapeChar ++ '"' :: t) x t := by
  induction x with
  | nil => exact .close t
  | cons c x ih =>
    rw [List.flatMap_cons, List.append_assoc]
    exact (escaped c).chars ih

theorem toList_quote (s : String) : (quote s).toList = '"' :: (s.toList.flatMap escapeChar ++ ['"']) := by
  rw [quote, String.toList_ofList, quoteChars, List.cons_append]

theorem ascii_quote (s : String) : ∀ c ∈ (quote s).toList, c.toNat < 128 := by
  rw [toList_quote]
  refine List.forall_mem_cons.mpr ⟨by decide, ?_⟩
  intro c hc
  rcases List.mem_append.mp hc with hc | hc
  · obtain ⟨a, -, ha⟩ := List.mem_flatMap.mp hc
    exact (escaped a).ascii c ha
  · rw [List.mem_singleton.mp hc]
    decide

theorem stands_str (s : String) : Stands Item (quote s).toList (.str s) := by
  refine .value (ascii_quote s) ?_
  intro t _
  have hvalue := Value.str (chars_escaped s.toList t)
  rw [String.ofList_toList] at hvalue
  rw [toList_quote, List.cons_append, List.append_assoc]
  exact hvalue

/-! ### Lists and objects -/

theorem enclose_nil (layout : Layout) (level : Nat) (left right : String) :
    enclose layout level left right [] = left ++ right := if_pos rfl

theorem toList_enclose (layout : Layout) (level : Nat) (left right : String) {texts : List String} (h : texts ≠ []) :
    (enclose layout level left right texts).toList =
      left.toList ++ ((layout.lead (level + 1)).toList ++
        ((layout.between (level + 1)).toList.intercalate (texts.map String.toList) ++
          ((layout.lead level).toList ++ right.toList))) := by
  rw [enclose, if_neg (by simpa using h)]
  simp only [String.toList_append, String.toList_intercalate, List.append_assoc]

theorem ascii_enclose (layout : Layout) (level : Nat) {left right : String} {texts : List String}
    (hleft : ∀ c ∈ left.toList, c.toNat < 128) (hright : ∀ c ∈ right.toList, c.toNat < 128)
    (h : ∀ text ∈ texts, ∀ c ∈ text.toList, c.toNat < 128) :
    ∀ c ∈ (enclose layout level left right texts).toList, c.toNat < 128 := by
  have hlead (level : Nat) : ∀ c ∈ (layout.lead level).toList, c.toNat < 128 :=
    fun c hc => ascii_of_isBlank (blank_lead layout level c hc)
  by_cases hempty : texts = []
  · rw [hempty, enclose_nil, String.toList_append]
    exact List.forall_mem_append.mpr ⟨hleft, hright⟩
  · have hbetween : ∀ c ∈ (layout.between (level + 1)).toList, c.toNat < 128 := by
      obtain ⟨w, hw, hblank⟩ := toList_between layout (level + 1)
      rw [hw]
      exact List.forall_mem_cons.mpr ⟨by decide, fun c hc => ascii_of_isBlank (hblank c hc)⟩
    have htexts : ∀ text ∈ texts.map String.toList, ∀ c ∈ text, c.toNat < 128 := by simpa using h
    rw [toList_enclose layout level left right hempty]
    simp only [List.forall_mem_append]
    exact ⟨hleft, hlead (level + 1), forall_mem_intercalate hbetween htexts, hlead level, hright⟩

/-! A list and an object are read alike: elements `E` apart by commas are a series `S`, up to a bracket that
closes it. -/

section
variable {α : Type} {E : List Char → α → List Char → Prop} {S : List Char → List α → List Char → Prop}
  {first close : Char} (digit : close.isDigit = false)
  (last : ∀ ⦃s s₁ t : List Char⦄ ⦃a : α⦄, E s a s₁ → Blank s₁ (close :: t) → S s [a] t)
  (next : ∀ ⦃s s₁ s₂ t : List Char⦄ ⦃a : α⦄ ⦃as : List α⦄, E s a s₁ → Blank s₁ (',' :: s₂) → S s₂ as t →
    S s (a :: as) t)
include digit last next

theorem series_intercalate {sep w : List Char} (hsep : sep = ',' :: w) (hw : ∀ c ∈ w, isBlank c = true)
    {after t : List Char} (hafter : Blank after (close :: t)) {texts : List (List Char)} {as : List α}
    (h : List.Forall₂ (Stands E) texts as) :
    ∀ {before : List Char}, (∀ c ∈ before, isBlank c = true) → as ≠ [] →
      S (before ++ (sep.intercalate texts ++ after)) as t := by
  -- the white space after a comma is the white space before the next element
  induction h with
  | nil => exact fun _ hne => absurd rfl hne
  | @cons text a texts as htext htexts ih =>
    intro before hbefore _
    cases htexts with
    | nil =>
      rw [List.intercalate_singleton]
      exact last (htext.reads hbefore (hafter.ends digit)) hafter
    | @cons text' a' texts as _ _ =>
      rw [List.intercalate_cons_cons, List.append_assoc, List.append_assoc]
      have hcomma : Blank (sep ++ (sep.intercalate (text' :: texts) ++ after))
          (',' :: (w ++ (sep.intercalate (text' :: texts) ++ after))) := by
        rw [hsep]
        exact .here _
      exact next (htext.reads hbefore (hcomma.ends rfl)) hcomma (ih hw (List.cons_ne_nil _ _))

theorem stands_enclose {left right : String} (hleft : left.toList = [first]) (hfirst : first.toNat < 128)
    (hright : right.toList = [close]) (hclose : close.toNat < 128) {f : List α → Json}
    (empty : ∀ t, Value (first :: close :: t) (f []) t)
    (full : ∀ ⦃s t : List Char⦄ ⦃as : List α⦄, S s as t → Value (first :: s) (f as) t)
    (layout : Layout) (level : Nat) {texts : List String} {as : List α}
    (h : List.Forall₂ (fun text => Stands E text.toList) texts as) :
    Stands Item (enclose layout level left right texts).toList (f as) := by
  have hascii : ∀ text ∈ texts, ∀ c ∈ text.toList, c.toNat < 128 := by
    induction h with
    | nil => simp
    | cons htext _ ih => exact List.forall_mem_cons.mpr ⟨htext.ascii, ih⟩
  refine .value (ascii_enclose layout level (by simpa [hleft] using hfirst) (by simpa [hright] using hclose) hascii) ?_
  intro t _
  cases h with
  | nil =>
    rw [enclose_nil, String.toList_append, hleft, hright]
    exact empty t
  | cons htext htexts =>
    obtain ⟨w, hbetween, hblank⟩ := toList_between layout (level + 1)
    have hafter : Blank ((layout.lead level).toList ++ close :: t) (close :: t) :=
      blank_append (blank_lead layout level) _
    have hseries := series_intercalate digit last next hbetween hblank hafter
      (List.forall₂_map_left_iff.mpr (.cons htext htexts)) (blank_lead layout (level + 1)) (List.cons_ne_nil _ _)
    rw [toList_enclose layout level left right (List.cons_ne_nil _ _), hleft, hright]
    simpa only [List.append_assoc, List.cons_append, List.nil_append] using full hseries

end

theorem stands_list (layout : Layout) (level : Nat) {texts : List String} {items : List Json}
    (h : List.Forall₂ (fun text => Stands Item text.toList) texts items) :
    Stands Item (enclose layout level "[" "]" texts).toList (.list items) :=
  stands_enclose (E := Item) (S := Items) (f := .list) rfl (fun _ _ _ _ => .last) (fun _ _ _ _ _ _ => .next)
    rfl (by decide) rfl (by decide) (fun t => .emptyList (.here _)) (fun _ _ _ => .list) layout level h

theorem stands_object (layout : Layout) (level : Nat) {texts : List String} {members : List (String × Json)}
    (h : List.Forall₂ (fun text => Stands Member text.toList) texts members) :
    Stands Item (enclose layout level "\x7b" "\x7d" texts).toList (.object members) :=
  stands_enclose (E := Member) (S := Members) (f := .object) rfl (fun _ _ _ _ => .last) (fun _ _ _ _ _ _ => .next)
    rfl (by decide) rfl (by decide) (fun t => .emptyObject (.here _)) (fun _ _ _ => .object) layout level h

theorem stands_member (key : String) {text : String} {v : Json} (h : Stands Item text.toList v) :
    Stands Member (quote key ++ ": " ++ text).toList (key, v) where
  ascii := by
    simp only [String.toList_append, List.forall_mem_append]
    exact ⟨⟨ascii_quote key, by simp⟩, h.ascii⟩
  reads := by
    intro before t hbefore ends
    have hblank : ∀ c ∈ [' '], isBlank c = true := List.forall_mem_singleton.mpr rfl
    have hitem : Item (' ' :: (text.toList ++ t)) v t := h.reads hblank ends
    have hmember := Member.mk (blank_append hbefore _) (chars_escaped key.toList _) (.here _) hitem
    rw [String.ofList_toList] at hmember
    simpa [toList_quote] using hmember

/-! ## Every value -/

mutual
theorem stands_renderAt (layout : Layout) (level : Nat) :
    ∀ v : Json, Stands Item (v.renderAt layout level).toList v
  | .null => stands_word "null" (by simp) .null
  | .bool true => stands_word "true" (by simp) .truth
  | .bool false => stands_word "false" (by simp) .falsity
  | .int n => stands_int n
  | .str s => stands_str s
  | .list items => stands_list layout level (stands_renderItems layout (level + 1) items)
  | .object members => stands_object layout level (stands_renderMembers layout (level + 1) members)

theorem stands_renderItems (layout : Layout) (level : Nat) :
    ∀ items : List Json, List.Forall₂ (fun text => Stands Item text.toList) (renderItems layout level items) items
  | [] => .nil
  | item :: items => .cons (stands_renderAt layout level item) (stands_renderItems layout level items)

theorem stands_renderMembers (layout : Layout) (level : Nat) :
    ∀ members : List (String × Json),
      List.Forall₂ (fun text => Stands Member text.toList) (renderMembers layout level members) members
  | [] => .nil
  | (key, value) :: members =>
    .cons (stands_member key (stands_renderAt layout level value)) (stands_renderMembers layout level members)
end

theorem reads_render (layout : Layout) (v : Json) : Reads (v.render layout).toList v := by
  have hitem := (stands_renderAt layout 0 v).reads (List.forall_mem_nil _) (by simp [Ends] : Ends [])
  rw [List.nil_append, List.append_nil] at hitem
  exact ⟨[], hitem, .here _⟩

theorem reads_render_iff (layout : Layout) (v w : Json) : Reads (v.render layout).toList w ↔ w = v := by
  constructor
  · exact (reads_render layout v).unique
  · rintro rfl
    exact reads_render layout w

theorem render_injective (layout : Layout) : Function.Injective (Json.render layout) := by
  intro v w heq
  rw [← reads_render_iff layout w v, ← heq]
  exact reads_render layout v

theorem strings_injective : Function.Injective Json.strings := by
  intro items items' heq
  exact List.map_injective_iff.mpr (fun _ _ => Json.str.inj) (Json.list.inj heq)

end Json

theorem Enum.toJson_injective : Function.Injective Enum.toJson := by
  intro e e' heq
  simp only [Enum.toJson, Json.object.injEq, List.cons.injEq, Prod.mk.injEq, Json.str.injEq, true_and, and_true] at heq
  obtain ⟨hname, hfull, hfile, hconstants⟩ := heq
  have hpair : Function.Injective fun entry : String × Int => (entry.1, Json.int entry.2) := by
    rintro ⟨n, k⟩ ⟨n', k'⟩ h
    cases h
    rfl
  cases e
  cases e'
  cases hname
  cases hfull
  cases hfile
  cases List.map_injective_iff.mpr hpair hconstants
  rfl

/-- A database's text is ASCII, reads as its JSON value and as nothing else, and so tells what the database lists: full
names, classes, enums, functions and types as they are written, in their order. -/
theorem text_reads_back (db : Database) :
    (∀ c ∈ db.toText.toList, c.toNat < 128) ∧
    (∀ v, Json.Reads db.toText.toList v ↔ v = db.toJson) ∧
    ∀ other : Database, other.toText = db.toText →
      other.toJson = db.toJson ∧
      other.namespaces.map (·.fullName) = db.namespaces.map (·.fullName) ∧
      other.classes.map (·.record.toJson) = db.classes.map (·.record.toJson) ∧
      other.enums.map (·.record) = db.enums.map (·.record) ∧
      other.functions.map (·.toJson) = db.functions.map (·.toJson) ∧
      other.types.map (·.toJson) = db.types.map (·.toJson) := by
  refine ⟨(Json.stands_renderAt _ 0 db.toJson).ascii, Json.reads_render_iff _ db.toJson, ?_⟩
  intro other heq
  have hjson : other.toJson = db.toJson := Json.render_injective _ heq
  have hparts := hjson
  simp only [Database.toJson, Json.object.injEq, List.cons.injEq, Prod.mk.injEq, Json.list.injEq, true_and,
    and_true] at hparts
  obtain ⟨hnames, hclasses, henums, hfunctions, htypes⟩ := hparts
  refine ⟨hjson, Json.strings_injective hnames, hclasses, ?_, hfunctions, htypes⟩
  have hrecords : (other.enums.map (·.record)).map Enum.toJson = (db.enums.map (·.record)).map Enum.toJson := by
    simp only [List.map_map]
    exact henums
  exact List.map_injective_iff.mpr Enum.toJson_injective hrecords

namespace EscapedRecords

-- no result, a parameter that may come from an alias and one without a name
def method (shortName : Option String) : Method where
  name := "operator \"\""
  params := [{ typeName := "::A", name := "a", pointers := 1, typeAlias := shortName }, { typeName := "int" }]
  templateParams := [{ name := "T" }]

def record (shortName : Option String) : Class where
  name := "S"
  fullName := "::S"
  fromFile := "C:\\s.h"
  bases := ["::B"]
  methods := [method shortName]

-- a class and an enum declared from a serial on, with marks that are escaped and a sign
def database (serial : Nat) (shortName : Option String) : Database where
  classes := [{ record := record shortName, access := .everyone, places := [⟨serial, none, .structDecl, "S"⟩] }]
  enums := [{
    record := ⟨"E", "::E", "C:\\e.h", [("\"\x07é😀", -5), ("a", 9223372036854775807)]⟩
    place := ⟨serial + 1, none, .enumDecl, "E"⟩ }]

end EscapedRecords

open EscapedRecords in
/-- Where a record was declared is not written, whether a parameter inside it comes from an alias is. -/
theorem text_of_escaped_records :
    database 0 (some "P") ≠ database 1 (some "P") ∧
    (∀ c ∈ (database 1 (some "P")).toText.toList, c.toNat < 128) ∧
    Json.Reads (database 0 (some "P")).toText.toList (database 1 (some "P")).toJson ∧
    (database 0 (some "P")).enums.map (·.record) = (database 1 (some "P")).enums.map (·.record) ∧
    (database 0 (some "P")).toText ≠ (database 0 none).toText := by
  obtain ⟨-, hreads, hequal⟩ := text_reads_back (database 0 (some "P"))
  obtain ⟨hascii, -, hplaces⟩ := text_reads_back (database 1 (some "P"))
  refine ⟨by decide, hascii, (hreads _).mpr rfl, (hplaces _ rfl).2.2.2.1, ?_⟩
  intro htext
  obtain ⟨-, -, hclasses, -⟩ := hequal _ htext.symm
  simp [database, record, method, Class.toJson, Method.toJson, Signature.members, Parameter.toJson, Parameter.members]
    at hclasses

end SymbolIndex
