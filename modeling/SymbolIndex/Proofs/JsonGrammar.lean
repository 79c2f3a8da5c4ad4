import SymbolIndex.Json.Basic

/-!
# The grammar of JSON

Each relation is between a text, what stands at its front and the rest of it. Strings are read with their
escapes undone, and two escaped surrogates as one character. A number with a fraction or an exponent is no
value of `Json` and has no rule. The grammar is unambiguous: no text reads as two values.
-/

namespace SymbolIndex.Json

/-! ## White space -/

def isBlank (c : Char) : Bool := c == ' ' || c == '\t' || c == '\n' || c == '\r'

/-- Go past white space, to its end or not so far. -/
inductive Blank : List Char → List Char → Prop where
  | here (s : List Char) : Blank s s
  | past {c : Char} {s t : List Char} (blank : isBlank c = true) (further : Blank s t) : Blank (c :: s) t

theorem Blank.unique {s t t' : List Char} {c c' : Char} (h : Blank s (c :: t)) (h' : Blank s (c' :: t'))
    (hc : isBlank c = false) (hc' : isBlank c' = false) : c' = c ∧ t' = t := by
  generalize hrest : c :: t = rest at h
  induction h with
  | here s =>
    subst hrest
    cases h' with
    | here => exact ⟨rfl, rfl⟩
    | past blank further =>
      rw [blank] at hc
      cases hc
  | past blank further ih =>
    cases h' with
    | here =>
      rw [blank] at hc'
      cases hc'
    | past _ further' => exact ih further' hrest

theorem Blank.not_both {s t t' : List Char} {c c' : Char} (h : Blank s (c :: t)) (h' : Blank s (c' :: t'))
    (hc : isBlank c = false) (hc' : isBlank c' = false) (hne : (c' == c) = false) : False := by
  rw [(h.unique h' hc hc').1, beq_self_eq_true] at hne
  cases hne

/-! ## Strings -/

def hexDigit? (c : Char) : Option Nat :=
  if '0' ≤ c ∧ c ≤ '9' then some (c.toNat - '0'.toNat)
  else if 'a' ≤ c ∧ c ≤ 'f' then some (c.toNat - 'a'.toNat + 10)
  else if 'A' ≤ c ∧ c ≤ 'F' then some (c.toNat - 'A'.toNat + 10)
  else none

def hexValue? (digits : List Char) : Option Nat :=
  digits.foldlM (fun n c => (hexDigit? c).map (16 * n + ·)) 0

def letterEscapes : List (Char × Char) :=
  [('"', '"'), ('\\', '\\'), ('/', '/'), ('b', '\x08'), ('f', '\x0c'), ('n', '\n'), ('r', '\r'), ('t', '\t')]

/-- A high and a low surrogate stand for one character beyond the basic plane. -/
structure Surrogates (u v : Nat) (c : Char) : Prop where
  high : 0xD800 ≤ u ∧ u < 0xDC00
  low : 0xDC00 ≤ v ∧ v < 0xE000
  code : c.toNat = 0x10000 + (u - 0xD800) * 0x400 + (v - 0xDC00)

/-- The characters of a string, up to its closing quote and past it. -/
inductive Chars : List Char → List Char → List Char → Prop where
  | close (t : List Char) : Chars ('"' :: t) [] t
  | plain {c : Char} {s x t : List Char} (printable : 0x20 ≤ c.toNat) (quote : c ≠ '"') (escape : c ≠ '\\')
      (more : Chars s x t) : Chars (c :: s) (c :: x) t
  | letter {e c : Char} {s x t : List Char} (stands : (e, c) ∈ letterEscapes) (more : Chars s x t) :
      Chars ('\\' :: e :: s) (c :: x) t
  | unit {d₁ d₂ d₃ d₄ c : Char} {s x t : List Char} (code : hexValue? [d₁, d₂, d₃, d₄] = some c.toNat)
      (more : Chars s x t) : Chars ('\\' :: 'u' :: d₁ :: d₂ :: d₃ :: d₄ :: s) (c :: x) t
  | pair {d₁ d₂ d₃ d₄ e₁ e₂ e₃ e₄ c : Char} {u v : Nat} {s x t : List Char}
      (first : hexValue? [d₁, d₂, d₃, d₄] = some u) (second : hexValue? [e₁, e₂, e₃, e₄] = some v)
      (stands : Surrogates u v c) (more : Chars s x t) :
      Chars ('\\' :: 'u' :: d₁ :: d₂ :: d₃ :: d₄ :: '\\' :: 'u' :: e₁ :: e₂ :: e₃ :: e₄ :: s) (c :: x) t

theorem letterEscapes_unique {e c c' : Char} (h : (e, c) ∈ letterEscapes) (h' : (e, c') ∈ letterEscapes) :
    c' = c := by
  have hall : ∀ p ∈ letterEscapes, ∀ q ∈ letterEscapes, q.1 = p.1 → q.2 = p.2 := by decide
  exact hall _ h _ h' rfl

theorem letterEscapes_ne_unit {e c : Char} (h : (e, c) ∈ letterEscapes) : e ≠ 'u' := by
  have hall : ∀ p ∈ letterEscapes, p.1 ≠ 'u' := by decide
  exact hall _ h

theorem toNat_not_surrogate (c : Char) : c.toNat < 0xD800 ∨ 0xE000 ≤ c.toNat := by
  have hvalid := c.valid
  simp only [UInt32.isValidChar, Nat.isValidChar] at hvalid
  simp only [Char.toNat]
  omega

theorem Chars.unique {s x t : List Char} (h : Chars s x t) :
    ∀ {x' t' : List Char}, Chars s x' t' → x' = x ∧ t' = t := by
  induction h with
  | close t =>
    intro x' t' h'
    cases h' with
    | close => exact ⟨rfl, rfl⟩
    | plain _ quote => exact absurd rfl quote
  | plain printable quote escape more ih =>
    intro x' t' h'
    cases h' with
    | close => exact absurd rfl quote
    | plain _ _ _ more' =>
      obtain ⟨rfl, rfl⟩ := ih more'
      exact ⟨rfl, rfl⟩
    | letter => exact absurd rfl escape
    | unit => exact absurd rfl escape
    | pair => exact absurd rfl escape
  | letter stands more ih =>
    intro x' t' h'
    cases h' with
    | plain _ _ escape => exact absurd rfl escape
    | letter stands' more' =>
      obtain ⟨rfl, rfl⟩ := ih more'
      exact ⟨by rw [letterEscapes_unique stands stands'], rfl⟩
    | unit => exact absurd rfl (letterEscapes_ne_unit stands)
    | pair => exact absurd rfl (letterEscapes_ne_unit stands)
  | @unit d₁ d₂ d₃ d₄ c s x t code more ih =>
    intro x' t' h'
    cases h' with
    | plain _ _ escape => exact absurd rfl escape
    | letter stands' => exact absurd rfl (letterEscapes_ne_unit stands')
    | unit code' more' =>
      obtain ⟨rfl, rfl⟩ := ih more'
      rw [code, Option.some.injEq, Char.toNat_inj] at code'
      exact ⟨by rw [code'], rfl⟩
    | pair first' _ stands' =>
      rw [code, Option.some.injEq] at first'
      have hhigh := stands'.high
      have hc := toNat_not_surrogate c
      omega
  | pair first second stands more ih =>
    intro x' t' h'
    cases h' with
    | plain _ _ escape => exact absurd rfl escape
    | letter stands' => exact absurd rfl (letterEscapes_ne_unit stands')
    | @unit _ _ _ _ c' _ _ _ code' =>
      rw [first, Option.some.injEq] at code'
      have hhigh := stands.high
      have hc := toNat_not_surrogate c'
      omega
    | pair first' second' stands' more' =>
      obtain ⟨rfl, rfl⟩ := ih more'
      rw [first, Option.some.injEq] at first'
      rw [second, Option.some.injEq] at second'
      have hcode : _ = _ := stands'.code.trans (first' ▸ second' ▸ stands.code.symm)
      rw [Char.toNat_inj] at hcode
      exact ⟨by rw [hcode], rfl⟩

/-! ## Numbers -/

/-- Decimal digits, of which the first is a zero only if it is the only one. -/
inductive Numeral : List Char → Prop where
  | zero : Numeral ['0']
  | digits {c : Char} {ds : List Char} (first : c.isDigit = true) (nonzero : c ≠ '0')
      (others : ∀ d ∈ ds, d.isDigit = true) : Numeral (c :: ds)

def Ends (t : List Char) : Prop := ∀ c ∈ t.head?, c.isDigit = false

inductive Number : List Char → Int → List Char → Prop where
  | natural {s ds t : List Char} (split : s = ds ++ t) (numeral : Numeral ds) (ends : Ends t) :
      Number s (Nat.ofDigitChars 10 ds 0) t
  | negative {s ds t : List Char} (split : s = ds ++ t) (numeral : Numeral ds) (ends : Ends t) :
      Number ('-' :: s) (-(Nat.ofDigitChars 10 ds 0 : Int)) t

theorem Numeral.isDigit {ds : List Char} (h : Numeral ds) : ∀ d ∈ ds, d.isDigit = true := by
  cases h with
  | zero => exact List.forall_mem_singleton.mpr rfl
  | digits first _ others =>
    intro d hd
    rcases List.mem_cons.mp hd with rfl | hd
    · exact first
    · exact others d hd

theorem Numeral.head {ds : List Char} (h : Numeral ds) : ∃ c rest, ds = c :: rest ∧ c.isDigit = true := by
  cases h with
  | zero => exact ⟨'0', [], rfl, rfl⟩
  | digits first _ _ => exact ⟨_, _, rfl, first⟩

theorem takeWhile_isDigit {ds t : List Char} (hds : ∀ d ∈ ds, d.isDigit = true) (ends : Ends t) :
    (ds ++ t).takeWhile Char.isDigit = ds := by
  rw [List.takeWhile_append_of_pos hds]
  cases t with
  | nil => rw [List.takeWhile_nil, List.append_nil]
  | cons c t =>
    have hc : c.isDigit = false := ends c rfl
    rw [List.takeWhile_cons, hc]
    simp

theorem Numeral.unique {ds ds' t t' : List Char} (h : Numeral ds) (h' : Numeral ds') (ends : Ends t) (ends' : Ends t')
    (heq : ds' ++ t' = ds ++ t) : ds' = ds ∧ t' = t := by
  have hds : ds' = ds := by
    rw [← takeWhile_isDigit h'.isDigit ends', heq, takeWhile_isDigit h.isDigit ends]
  subst hds
  exact ⟨rfl, List.append_cancel_left heq⟩

theorem Number.head {s t : List Char} {n : Int} (h : Number s n t) :
    ∃ c rest, s = c :: rest ∧ (c = '-' ∨ c.isDigit = true) := by
  cases h with
  | natural split numeral =>
    obtain ⟨c, rest, rfl, hc⟩ := numeral.head
    exact ⟨c, _, split, Or.inr hc⟩
  | negative => exact ⟨'-', _, rfl, Or.inl rfl⟩

theorem Number.unique {s t t' : List Char} {n n' : Int} (h : Number s n t) (h' : Number s n' t') :
    n' = n ∧ t' = t := by
  have hsign : ∀ {s ds t : List Char}, Numeral ds → '-' :: s ≠ ds ++ t := by
    intro s ds t numeral heq
    obtain ⟨c, rest, rfl, hc⟩ := numeral.head
    rw [List.cons_append, List.cons.injEq] at heq
    rw [← heq.1] at hc
    exact absurd hc (by decide)
  cases h with
  | natural split numeral ends =>
    cases h' with
    | natural split' numeral' ends' =>
      obtain ⟨rfl, rfl⟩ := numeral.unique numeral' ends ends' (split'.symm.trans split)
      exact ⟨rfl, rfl⟩
    | negative split' numeral' ends' => exact absurd split (hsign numeral)
  | negative split numeral ends =>
    cases h' with
    | natural split' numeral' ends' => exact absurd split' (hsign numeral')
    | negative split' numeral' ends' =>
      obtain ⟨rfl, rfl⟩ := numeral.unique numeral' ends ends' (split'.symm.trans split)
      exact ⟨rfl, rfl⟩

/-! ## Values -/

mutual
inductive Value : List Char → Json → List Char → Prop where
  | null (t : List Char) : Value ('n' :: 'u' :: 'l' :: 'l' :: t) .null t
  | truth (t : List Char) : Value ('t' :: 'r' :: 'u' :: 'e' :: t) (.bool true) t
  | falsity (t : List Char) : Value ('f' :: 'a' :: 'l' :: 's' :: 'e' :: t) (.bool false) t
  | int {s t : List Char} {n : Int} (number : Number s n t) : Value s (.int n) t
  | str {s x t : List Char} (chars : Chars s x t) : Value ('"' :: s) (.str (String.ofList x)) t
  | emptyList {s t : List Char} (close : Blank s (']' :: t)) : Value ('[' :: s) (.list []) t
  | list {s t : List Char} {vs : List Json} (items : Items s vs t) : Value ('[' :: s) (.list vs) t
  | emptyObject {s t : List Char} (close : Blank s ('\x7d' :: t)) : Value ('\x7b' :: s) (.object []) t
  | object {s t : List Char} {ms : List (String × Json)} (members : Members s ms t) :
      Value ('\x7b' :: s) (.object ms) t

inductive Item : List Char → Json → List Char → Prop where
  | mk {s s₁ t : List Char} {v : Json} (before : Blank s s₁) (value : Value s₁ v t) : Item s v t

inductive Items : List Char → List Json → List Char → Prop where
  | last {s s₁ t : List Char} {v : Json} (item : Item s v s₁) (close : Blank s₁ (']' :: t)) : Items s [v] t
  | next {s s₁ s₂ t : List Char} {v : Json} {vs : List Json} (item : Item s v s₁) (comma : Blank s₁ (',' :: s₂))
      (more : Items s₂ vs t) : Items s (v :: vs) t

inductive Member : List Char → String × Json → List Char → Prop where
  | mk {s s₁ s₂ s₃ key t : List Char} {v : Json} (before : Blank s ('"' :: s₁)) (chars : Chars s₁ key s₂)
      (colon : Blank s₂ (':' :: s₃)) (item : Item s₃ v t) : Member s (String.ofList key, v) t

inductive Members : List Char → List (String × Json) → List Char → Prop where
  | last {s s₁ t : List Char} {m : String × Json} (member : Member s m s₁) (close : Blank s₁ ('\x7d' :: t)) :
      Members s [m] t
  | next {s s₁ s₂ t : List Char} {m : String × Json} {ms : List (String × Json)} (member : Member s m s₁)
      (comma : Blank s₁ (',' :: s₂)) (more : Members s₂ ms t) : Members s (m :: ms) t
end

/-- A whole text, with white space around its value. -/
def Reads (text : List Char) (value : Json) : Prop := ∃ rest, Item text value rest ∧ Blank rest []

/-! ## One value for a text -/

theorem Number.not_mark {s t : List Char} {n : Int} {c : Char} (h : Number (c :: s) n t)
    (hc : (c == '-' || c.isDigit) = false) : False := by
  obtain ⟨c', rest, heq, hmark⟩ := h.head
  rw [(List.cons.inj heq).1] at hc
  rcases hmark with rfl | hdigit
  · cases hc
  · rw [hdigit, Bool.or_true] at hc
    cases hc

theorem Value.starts {s t : List Char} {v : Json} (h : Value s v t) :
    ∃ c rest, s = c :: rest ∧ isBlank c = false ∧ c ≠ ']' := by
  cases h with
  | int number =>
    obtain ⟨c, rest, rfl, hc⟩ := number.head
    refine ⟨c, rest, rfl, ?_, ?_⟩
    · rw [Bool.eq_false_iff]
      intro hblank
      simp only [isBlank, Bool.or_eq_true, beq_iff_eq] at hblank
      rcases hblank with ((rfl | rfl) | rfl) | rfl <;> exact absurd hc (by decide)
    · rintro rfl
      exact absurd hc (by decide)
  | _ => exact ⟨_, _, rfl, by decide, by decide⟩

theorem Items.not_closed {s t t' : List Char} {vs : List Json} (h : Items s vs t) : ¬ Blank s (']' :: t') := by
  intro hclosed
  have hitem : ∃ v s₁, Item s v s₁ := by
    cases h with
    | last item => exact ⟨_, _, item⟩
    | next item => exact ⟨_, _, item⟩
  obtain ⟨v, s₁, ⟨before, value⟩⟩ := hitem
  obtain ⟨c, rest, rfl, hc, hne⟩ := value.starts
  exact hne (hclosed.unique before rfl hc).1

theorem Members.not_closed {s t t' : List Char} {ms : List (String × Json)} (h : Members s ms t) :
    ¬ Blank s ('\x7d' :: t') := by
  intro hclosed
  have hmember : ∃ m s₁, Member s m s₁ := by
    cases h with
    | last member => exact ⟨_, _, member⟩
    | next member => exact ⟨_, _, member⟩
  obtain ⟨m, s₁, ⟨before, -, -, -⟩⟩ := hmember
  exact (hclosed.not_both before rfl rfl rfl).elim

mutual
theorem Value.unique : ∀ {s t t' : List Char} {v v' : Json}, Value s v t → Value s v' t' → v' = v ∧ t' = t
  | _, _, _, _, _, .null t, h' => by
    cases h' with
    | null => exact ⟨rfl, rfl⟩
    | int number => exact (number.not_mark rfl).elim
  | _, _, _, _, _, .truth t, h' => by
    cases h' with
    | truth => exact ⟨rfl, rfl⟩
    | int number => exact (number.not_mark rfl).elim
  | _, _, _, _, _, .falsity t, h' => by
    cases h' with
    | falsity => exact ⟨rfl, rfl⟩
    | int number => exact (number.not_mark rfl).elim
  | _, _, _, _, _, .int number, h' => by
    cases h' with
    | int number' =>
      obtain ⟨rfl, rfl⟩ := number.unique number'
      exact ⟨rfl, rfl⟩
    | _ => exact (number.not_mark rfl).elim
  | _, _, _, _, _, .str chars, h' => by
    cases h' with
    | int number => exact (number.not_mark rfl).elim
    | str chars' =>
      obtain ⟨rfl, rfl⟩ := chars.unique chars'
      exact ⟨rfl, rfl⟩
  | _, _, _, _, _, .emptyList close, h' => by
    cases h' with
    | int number => exact (number.not_mark rfl).elim
    | emptyList close' => exact ⟨rfl, (close.unique close' rfl rfl).2⟩
    | list items' => exact absurd close items'.not_closed
  | _, _, _, _, _, .list items, h' => by
    cases h' with
    | int number => exact (number.not_mark rfl).elim
    | emptyList close' => exact absurd close' items.not_closed
    | list items' =>
      obtain ⟨rfl, rfl⟩ := items.unique items'
      exact ⟨rfl, rfl⟩
  | _, _, _, _, _, .emptyObject close, h' => by
    cases h' with
    | int number => exact (number.not_mark rfl).elim
    | emptyObject close' => exact ⟨rfl, (close.unique close' rfl rfl).2⟩
    | object members' => exact absurd close members'.not_closed
  | _, _, _, _, _, .object members, h' => by
    cases h' with
    | int number => exact (number.not_mark rfl).elim
    | emptyObject close' => exact absurd close' members.not_closed
    | object members' =>
      obtain ⟨rfl, rfl⟩ := members.unique members'
      exact ⟨rfl, rfl⟩

theorem Item.unique : ∀ {s t t' : List Char} {v v' : Json}, Item s v t → Item s v' t' → v' = v ∧ t' = t
  | _, _, _, _, _, .mk before value, .mk before' value' => by
    obtain ⟨c, rest, rfl, hc, -⟩ := value.starts
    obtain ⟨c', rest', rfl, hc', -⟩ := value'.starts
    obtain ⟨rfl, rfl⟩ := before.unique before' hc hc'
    exact value.unique value'

theorem Items.unique : ∀ {s t t' : List Char} {vs vs' : List Json}, Items s vs t → Items s vs' t' → vs' = vs ∧ t' = t
  | _, _, _, _, _, .last item close, h' => by
    cases h' with
    | last item' close' =>
      obtain ⟨rfl, rfl⟩ := item.unique item'
      exact ⟨rfl, (close.unique close' rfl rfl).2⟩
    | next item' comma' more' =>
      obtain ⟨rfl, rfl⟩ := item.unique item'
      exact (close.not_both comma' rfl rfl rfl).elim
  | _, _, _, _, _, .next item comma more, h' => by
    cases h' with
    | last item' close' =>
      obtain ⟨rfl, rfl⟩ := item.unique item'
      exact (comma.not_both close' rfl rfl rfl).elim
    | next item' comma' more' =>
      obtain ⟨rfl, rfl⟩ := item.unique item'
      obtain ⟨-, rfl⟩ := comma.unique comma' rfl rfl
      obtain ⟨rfl, rfl⟩ := more.unique more'
      exact ⟨rfl, rfl⟩

theorem Member.unique : ∀ {s t t' : List Char} {m m' : String × Json}, Member s m t → Member s m' t' → m' = m ∧ t' = t
  | _, _, _, _, _, .mk before chars colon item, .mk before' chars' colon' item' => by
    obtain ⟨-, rfl⟩ := before.unique before' rfl rfl
    obtain ⟨rfl, rfl⟩ := chars.unique chars'
    obtain ⟨-, rfl⟩ := colon.unique colon' rfl rfl
    obtain ⟨rfl, rfl⟩ := item.unique item'
    exact ⟨rfl, rfl⟩

theorem Members.unique : ∀ {s t t' : List Char} {ms ms' : List (String × Json)}, Members s ms t → Members s ms' t' →
    ms' = ms ∧ t' = t
  | _, _, _, _, _, .last member close, h' => by
    cases h' with
    | last member' close' =>
      obtain ⟨rfl, rfl⟩ := member.unique member'
      exact ⟨rfl, (close.unique close' rfl rfl).2⟩
    | next member' comma' more' =>
      obtain ⟨rfl, rfl⟩ := member.unique member'
      exact (close.not_both comma' rfl rfl rfl).elim
  | _, _, _, _, _, .next member comma more, h' => by
    cases h' with
    | last member' close' =>
      obtain ⟨rfl, rfl⟩ := member.unique member'
      exact (comma.not_both close' rfl rfl rfl).elim
    | next member' comma' more' =>
      obtain ⟨rfl, rfl⟩ := member.unique member'
      obtain ⟨-, rfl⟩ := comma.unique comma' rfl rfl
      obtain ⟨rfl, rfl⟩ := more.unique more'
      exact ⟨rfl, rfl⟩
end

theorem Reads.unique {text : List Char} {v v' : Json} (h : Reads text v) (h' : Reads text v') : v' = v := by
  obtain ⟨rest, item, -⟩ := h
  obtain ⟨rest', item', -⟩ := h'
  exact (item.unique item').1

end SymbolIndex.Json
