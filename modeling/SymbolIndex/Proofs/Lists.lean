import Mathlib.Data.List.Forall2
import Mathlib.Data.List.Nodup

/-!
# Lists in general

Cutting and searching lists, and what it means that a computation that may fail succeeds or fails at all
elements of a list.
-/

namespace SymbolIndex

variable {α β ε : Type}

/-! ## Parts of lists -/

theorem append_eq_append_cons {as bs xs ys : List α} {a : α} (h : as ++ bs = xs ++ a :: ys) :
    (∃ zs, as = xs ++ a :: zs ∧ ys = zs ++ bs) ∨ ∃ zs, xs = as ++ zs ∧ bs = zs ++ a :: ys := by
  rcases List.append_eq_append_iff.mp h with ⟨zs, hxs, hbs⟩ | ⟨zs, has, hys⟩
  · exact Or.inr ⟨zs, hxs, hbs⟩
  · rcases List.cons_eq_append_iff.mp hys with ⟨rfl, hbs⟩ | ⟨zs, rfl, rfl⟩
    · exact Or.inr ⟨[], by simpa using has.symm, hbs⟩
    · exact Or.inl ⟨zs, has, rfl⟩

theorem append_replicate_inj {a : α} {x y : List α} (hx : x.getLast? ≠ some a) (hy : y.getLast? ≠ some a) :
    ∀ {n m : Nat}, x ++ List.replicate n a = y ++ List.replicate m a → n = m ∧ x = y
  | 0, 0, h => ⟨rfl, by simpa using h⟩
  | 0, m + 1, h => by
    rw [List.replicate_succ', ← List.append_assoc] at h
    simp at h
    simp [h] at hx
  | n + 1, 0, h => by
    rw [List.replicate_succ', ← List.append_assoc] at h
    simp at h
    simp [← h] at hy
  | n + 1, m + 1, h => by
    rw [List.replicate_succ', List.replicate_succ', ← List.append_assoc, ← List.append_assoc] at h
    obtain ⟨hnm, hxy⟩ := append_replicate_inj hx hy (List.append_inj' h rfl).1
    exact ⟨by omega, hxy⟩

theorem not_prefix_append {word x y : List α} (h : ¬ word <+: x) (hy : ∀ a ∈ y.head?, a ∉ word) :
    ¬ word <+: x ++ y := by
  intro hword
  rcases List.prefix_or_prefix_of_prefix hword (List.prefix_append x y) with h' | ⟨rest, rfl⟩
  · exact h h'
  · rw [List.prefix_append_right_inj] at hword
    cases rest with
    | nil => exact h (by simp)
    | cons a rest =>
      obtain ⟨tail, rfl⟩ := hword
      exact hy a rfl (by simp)

theorem concat_suffix_iff {x y : List α} {a : α} : x ++ [a] <:+ y ↔ y.getLast? = some a ∧ x <:+ y.dropLast := by
  constructor
  · rintro ⟨front, rfl⟩
    rw [← List.append_assoc]
    simp
  · rintro ⟨hlast, front, hfront⟩
    refine ⟨front, ?_⟩
    rw [← List.append_assoc, hfront, List.dropLast_append_getLast? a hlast]

theorem forall_mem_intercalate {P : α → Prop} {sep : List α} (hsep : ∀ a ∈ sep, P a) {parts : List (List α)}
    (h : ∀ part ∈ parts, ∀ a ∈ part, P a) : ∀ a ∈ sep.intercalate parts, P a := by
  induction parts with
  | nil => simp
  | cons part parts ih =>
    obtain ⟨hpart, hparts⟩ := List.forall_mem_cons.mp h
    cases parts with
    | nil => rwa [List.intercalate_singleton]
    | cons next parts =>
      rw [List.intercalate_cons_cons]
      exact List.forall_mem_append.mpr ⟨List.forall_mem_append.mpr ⟨hpart, hsep⟩, ih hparts⟩

/-! ## Searches -/

theorem find?_eq_some_of_key {key : α → String} {items : List α} (h : (items.map key).Nodup) (name : String) (a : α) :
    items.find? (key · == name) = some a ↔ a ∈ items ∧ key a = name := by
  constructor
  · intro hf
    have hkey := List.find?_some hf
    exact ⟨List.mem_of_find?_eq_some hf, beq_iff_eq.mp hkey⟩
  · rintro ⟨hm, rfl⟩
    cases hf : items.find? (key · == key a) with
    | none => simpa using List.find?_eq_none.mp hf a hm
    | some b =>
      have hkey := List.find?_some hf
      rw [List.inj_on_of_nodup_map h (List.mem_of_find?_eq_some hf) hm (beq_iff_eq.mp hkey)]

theorem findSome?_congr {f g : α → Option β} {l : List α} (h : ∀ a ∈ l, f a = g a) :
    l.findSome? f = l.findSome? g := by
  induction l with
  | nil => rfl
  | cons a l ih =>
    rw [List.forall_mem_cons] at h
    rw [List.findSome?_cons, List.findSome?_cons, h.1, ih h.2]

theorem idxOf_lt_idxOf_iff [BEq α] [LawfulBEq α] {front back : List α} {a : α} (ha : a ∉ front) (b : α) :
    (front ++ a :: back).idxOf b < (front ++ a :: back).idxOf a ↔ b ∈ front := by
  have hindex : (front ++ a :: back).idxOf a = front.length := by
    simp [List.idxOf_append_of_notMem ha]
  rw [hindex]
  by_cases hb : b ∈ front
  · simp [List.idxOf_append_of_mem hb, List.idxOf_lt_length_of_mem hb, hb]
  · simp [List.idxOf_append_of_notMem hb, hb]

theorem flatMap_eq_filter {f : α → List α} {p : α → Bool} {l : List α}
    (h : ∀ a ∈ l, f a = if p a then [a] else []) : l.flatMap f = l.filter p := by
  induction l with
  | nil => rfl
  | cons a l ih =>
    rw [List.forall_mem_cons] at h
    rw [List.flatMap_cons, h.1, ih h.2, List.filter_cons]
    split <;> rfl

/-! ## Computations that may fail -/

theorem bind_eq_ok {x : Except ε α} {f : α → Except ε β} {b : β} : x >>= f = .ok b ↔ ∃ a, x = .ok a ∧ f a = .ok b := by
  cases x with
  | error e => simp [bind, Except.bind]
  | ok a => simp [bind, Except.bind]

theorem bind_eq_error {x : Except ε α} {f : α → Except ε β} {e : ε} :
    x >>= f = .error e ↔ x = .error e ∨ ∃ a, x = .ok a ∧ f a = .error e := by
  cases x with
  | error e' => simp [bind, Except.bind]
  | ok a => simp [bind, Except.bind]

variable {f g : α → Except ε β}

theorem mapM_congr {l : List α} (h : ∀ a ∈ l, f a = g a) : l.mapM f = l.mapM g := by
  induction l with
  | nil => rfl
  | cons a l ih =>
    rw [List.forall_mem_cons] at h
    rw [List.mapM_cons, List.mapM_cons, h.1, ih h.2]

theorem mapM_ok : ∀ {l : List α} {r : List β}, l.mapM f = .ok r → List.Forall₂ (fun a b => f a = .ok b) l r
  | [], _, h => by
    cases h
    exact .nil
  | a :: l, r, h => by
    rw [List.mapM_cons] at h
    obtain ⟨b, hb, h⟩ := bind_eq_ok.mp h
    obtain ⟨bs, hbs, h⟩ := bind_eq_ok.mp h
    cases h
    exact .cons hb (mapM_ok hbs)

theorem mapM_error {e : ε} : ∀ {l : List α}, l.mapM f = .error e → ∃ a ∈ l, f a = .error e
  | [], h => by cases h
  | a :: l, h => by
    rw [List.mapM_cons] at h
    rcases bind_eq_error.mp h with ha | ⟨b, -, h⟩
    · exact ⟨a, List.mem_cons_self .., ha⟩
    · rcases bind_eq_error.mp h with hl | ⟨bs, -, h⟩
      · obtain ⟨a', hm, ha'⟩ := mapM_error hl
        exact ⟨a', List.mem_cons_of_mem _ hm, ha'⟩
      · cases h

theorem exists_mapM_error {a : α} {e : ε} (ha : f a = .error e) :
    ∀ {l : List α}, a ∈ l → ∃ e', l.mapM f = .error e'
  | b :: l, hm => by
    rw [List.mapM_cons]
    cases hb : f b with
    | error e' => exact ⟨e', rfl⟩
    | ok r =>
      rcases List.mem_cons.mp hm with rfl | hm
      · rw [ha] at hb
        cases hb
      · obtain ⟨e', he⟩ := exists_mapM_error ha hm
        rw [he]
        exact ⟨e', rfl⟩

end SymbolIndex
