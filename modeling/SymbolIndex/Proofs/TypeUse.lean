import SymbolIndex.Proofs.History
import SymbolIndex.Proofs.Keywords
import SymbolIndex.Proofs.Ledger
import SymbolIndex.Proofs.Lists

/-!
# What a written type comes down to

A type that is used in a scope, against a type table, comes down to a base name with template
arguments under pointers and references, `const` or not. Its text puts these into one string, and they
can be read off the string again unless the name itself ends like a pointer or reference.
-/

namespace SymbolIndex

/-! ## Texts -/

def EndsInName (name : String) : Prop := ∀ c ∈ name.toList.getLast?, c ≠ '*' ∧ c ≠ '&'

theorem toList_decorate (isConst : Bool) (name : String) (pointers references : Int) :
    (decorate isConst name pointers references).toList = (if isConst then "const ".toList else []) ++
      (name.toList ++ (List.replicate pointers.toNat '*' ++ List.replicate references.toNat '&')) := by
  cases isConst <;> simp [decorate]

theorem decorate_isConst {k k' : Bool} {name name' : String} {p p' r r' : Int} (hn : Unqualified name)
    (hn' : Unqualified name') (h : decorate k name p r = decorate k' name' p' r') : k = k' := by
  have hunqualified : ∀ {name : String} {p r : Int}, Unqualified name →
      ¬ "const ".toList <+: name.toList ++ (List.replicate p.toNat '*' ++ List.replicate r.toNat '&') := by
    intro name p r hn
    apply not_prefix_append hn
    intro c hc
    have hm := List.mem_of_mem_head? hc
    rcases List.mem_append.mp hm with hm | hm
    · rw [(List.mem_replicate.mp hm).2]
      decide
    · rw [(List.mem_replicate.mp hm).2]
      decide
  have hlist := congrArg String.toList h
  rw [toList_decorate, toList_decorate] at hlist
  cases k <;> cases k'
  · rfl
  · exact absurd ⟨_, hlist.symm⟩ (hunqualified hn)
  · exact absurd ⟨_, hlist⟩ (hunqualified hn')
  · rfl

theorem decorate_inj {k : Bool} {name name' : String} {p p' r r' : Int} (hn : EndsInName name)
    (hn' : EndsInName name') (h : decorate k name p r = decorate k name' p' r') :
    name = name' ∧ p.toNat = p'.toNat ∧ r.toNat = r'.toNat := by
  have hlist := congrArg String.toList h
  rw [toList_decorate, toList_decorate, List.append_cancel_left_eq, ← List.append_assoc, ← List.append_assoc] at hlist
  have hlast : ∀ {name : String} {p : Int}, EndsInName name →
      (name.toList ++ List.replicate p.toNat '*').getLast? ≠ some '&' := by
    intro name p hn hlast
    rw [List.getLast?_append] at hlast
    cases hs : (List.replicate p.toNat '*').getLast? with
    | none =>
      rw [hs, Option.none_or] at hlast
      exact (hn _ hlast).2 rfl
    | some c =>
      rw [hs, Option.some_or] at hlast
      have hm := List.mem_of_getLast? hs
      rw [Option.some.inj hlast] at hm
      cases (List.mem_replicate.mp hm).2
  obtain ⟨hr, hlist⟩ := append_replicate_inj (hlast hn) (hlast hn') hlist
  obtain ⟨hp, hname⟩ := append_replicate_inj (fun hl => (hn _ hl).1 rfl) (fun hl => (hn' _ hl).1 rfl) hlist
  exact ⟨String.toList_inj.mp hname, hp, hr⟩

/-! ## Names in a type table -/

def Bracketed (arguments : String) : Prop := ∀ c ∈ arguments.toList.head?, c = '<'

theorem splitTemplateArguments_bracketed (name : String) : Bracketed (splitTemplateArguments name).2 := by
  unfold splitTemplateArguments
  split
  · intro c hc
    cases hc
  · rename_i arguments hnonempty
    intro c hc
    rw [String.toList_ofList] at hc
    cases ha : name.toList.dropWhile (· != '<') with
    | nil => exact absurd ha hnonempty
    | cons d rest =>
      have hd : d = '<' := by
        have hhead := List.head?_dropWhile_not (· != '<') name.toList
        rw [ha] at hhead
        simpa using hhead
      rw [ha, hd] at hc
      simpa using hc.symm

/-- What all type references have in common that are read from a tree or stand in a table. -/
structure TypeRef.Tidy (type : TypeRef) : Prop where
  unqualified : Unqualified type.fullName
  arguments : Bracketed type.templateArguments
  pointers : 0 ≤ type.pointers
  references : 0 ≤ type.references

theorem Unqualified.append {name rest : String} (h : Unqualified name)
    (hrest : ∀ c ∈ rest.toList.head?, c = ':' ∨ c = '<') : Unqualified (name ++ rest) := by
  unfold Unqualified
  rw [String.toList_append]
  apply not_prefix_append h
  intro c hc
  rcases hrest c hc with rfl | rfl <;> decide

theorem unqualified_empty : Unqualified "" := by decide

theorem Unqualified.below {scope : String} (h : Unqualified scope) (name : String) :
    Unqualified (scope ++ "::" ++ name) := by
  rw [String.append_assoc]
  apply h.append
  intro c hc
  left
  simpa using hc.symm

theorem TypeRef.label_unqualified (type : TypeRef) : Unqualified type.label := by
  rw [label, Scope.join_append_singleton]
  cases type.scopePath with
  | nil => exact unqualified_empty.below type.name
  | cons part parts =>
    rw [Scope.join_cons, String.append_assoc, String.append_assoc, String.append_assoc, ← String.empty_append (s := "::")]
    exact unqualified_empty.below _

theorem Builtin.unqualified (type : Builtin) : Unqualified type.name := by
  cases type <;> decide

theorem TypeTree.core_tidy (tree : TypeTree) : tree.core.Tidy := by
  induction tree with
  | builtin written type => exact ⟨type.unqualified, by simp [core, Bracketed], by simp [core], by simp [core]⟩
  | declarator written =>
    exact ⟨stripKeywords_unqualified _, by simp [core, Bracketed], by simp [core], by simp [core]⟩
  | named written kind declaration =>
    refine ⟨?_, ?_, by simp [core], by simp [core]⟩
    · simp only [core]
      exact unqualified_empty
    · simp only [core]
      exact splitTemplateArguments_bracketed _
  | pointer written type ih =>
    have := ih.pointers
    exact ⟨ih.unqualified, ih.arguments, by simp only [core]; omega, ih.references⟩
  | reference written rvalue type ih =>
    have := ih.references
    exact ⟨ih.unqualified, ih.arguments, ih.pointers, by simp only [core]; omega⟩
  | elaborated written type ih => exact ⟨ih.unqualified, ih.arguments, ih.pointers, ih.references⟩

theorem TypeTree.ofTree_tidy (tree : TypeTree) : (TypeRef.ofTree tree).Tidy :=
  ⟨tree.core_tidy.unqualified, tree.core_tidy.arguments, tree.core_tidy.pointers, tree.core_tidy.references⟩

theorem TypeRef.Tidy.addLayer {type layer : TypeRef} (h : type.Tidy) (h' : layer.Tidy) : (type.addLayer layer).Tidy := by
  have hp := h.pointers
  have hp' := h'.pointers
  have hr := h.references
  have hr' := h'.references
  refine ⟨h.unqualified, h.arguments, ?_, ?_⟩
  · show 0 ≤ type.pointers + layer.pointers
    omega
  · show 0 ≤ type.references + layer.references
    omega

theorem Bracketed.orElse {a b : String} (ha : Bracketed a) (hb : Bracketed b) : Bracketed (if a = "" then b else a) := by
  split
  · exact hb
  · exact ha

namespace Collector

theorem aliasEntry_tidy (c : Collector) (name : String) (scope : List String) {target : TypeRef} (ht : target.Tidy)
    (h : ∀ t ∈ c.db.types, t.Tidy) : (c.aliasEntry name scope target).1.Tidy := by
  unfold aliasEntry
  simp only
  split
  · apply TypeRef.Tidy.addLayer _ ht
    exact ⟨ht.unqualified, ht.arguments, Int.le_refl 0, Int.le_refl 0⟩
  · split
    · rename_i known hfound
      have hknown := h known (TypeRef.mem_of_findIn? hfound)
      apply TypeRef.Tidy.addLayer _ ht
      apply TypeRef.Tidy.addLayer _ hknown
      exact ⟨hknown.unqualified, ht.arguments.orElse hknown.arguments, Int.le_refl 0, Int.le_refl 0⟩
    · apply TypeRef.Tidy.addLayer _ ht
      refine ⟨?_, ht.arguments, Int.le_refl 0, Int.le_refl 0⟩
      show Unqualified (if target.fullName = "" then target.label else target.fullName)
      split
      · exact target.label_unqualified
      · exact ht.unqualified

end Collector

theorem Database.declaredType_tidy {scope : String} (h : Unqualified scope) (name : String) (kind : TypeKind) :
    (declaredType name (scope ++ "::" ++ name) kind).Tidy :=
  ⟨h.below name, by simp [declaredType, Bracketed], Int.le_refl 0, Int.le_refl 0⟩

structure Ledger.Tidy (l : Ledger) : Prop where
  scopes : ∀ name ∈ l.scopes, Unqualified name
  types : ∀ t ∈ l.types, t.Tidy ∧ t.fullName ≠ ""

theorem Ledger.Tidy.empty : Tidy ⟨[], [], [], []⟩ where
  scopes := by
    intro name hn
    rw [List.mem_singleton.mp hn]
    exact unqualified_empty
  types := by simp

theorem Collector.Tallies.tidy {c : Collector} {decl : Decl} {parent : Site} {l : Ledger}
    (h : c.Tallies decl parent l) (ht : c.db.ledger.Tidy) : l.Tidy := by
  constructor
  · exact h.forall_scopes ht.scopes fun _ _ scope hscope => hscope.below decl.spelling
  · apply h.forall_types ht.types
    · intro scope hscope kind _
      exact ⟨Database.declaredType_tidy (ht.scopes scope hscope) decl.spelling kind, Scope.below_ne _ _⟩
    · intro scope
      have htarget : (TypeRef.ofTree decl.underlying).Tidy := decl.underlying.ofTree_tidy
      exact ⟨c.aliasEntry_tidy _ _ htarget fun t hm => (ht.types t hm).1,
        c.aliasIn_ne decl scope fun t hm => (ht.types t hm).2⟩

/-! ## Uses of types -/

namespace TypeTree

/-- The name of the type under all layers: a builtin one, the spelling of an array or function, or scope
path and name. -/
def baseName (tree : TypeTree) : String :=
  if tree.base.core.fullName = "" then tree.base.core.label else tree.base.core.fullName

def arguments (tree : TypeTree) : String := tree.base.core.templateArguments

end TypeTree

structure TypeUse where
  tree : TypeTree
  table : List TypeRef
  scope : List String

namespace TypeUse

variable (u : TypeUse)

/-- The table entry that the type is found under; a builtin type is not looked up. -/
def known? : Option TypeRef :=
  if (TypeRef.ofTree u.tree).kind = .builtin then none else (TypeRef.ofTree u.tree).findIn? u.table u.scope

def isConst : Bool := u.tree.anyConst || u.known?.elim false TypeRef.isConst

def pointers : Int := u.tree.pointerLayers + u.known?.elim 0 TypeRef.pointers

def references : Int := u.tree.referenceLayers + u.known?.elim 0 TypeRef.references

def baseName : String := u.known?.elim u.tree.baseName TypeRef.fullName

def arguments : String :=
  if u.tree.arguments = "" then u.known?.elim "" TypeRef.templateArguments else u.tree.arguments

def name : String := u.baseName ++ u.arguments

def text : String := decorate u.isConst u.name u.pointers u.references

structure Tidy : Prop where
  unqualified : Unqualified u.baseName
  arguments : Bracketed u.arguments
  pointers : 0 ≤ u.pointers
  references : 0 ≤ u.references

variable {u}

theorem mem_of_known? {known : TypeRef} (h : u.known? = some known) : known ∈ u.table := by
  unfold known? at h
  split at h
  · cases h
  · exact TypeRef.mem_of_findIn? h

theorem tidy (h : ∀ t ∈ u.table, t.Tidy) : u.Tidy := by
  have hbase := u.tree.base.core_tidy
  have hcore := u.tree.core_tidy
  rw [u.tree.core_eq_base] at hcore
  have hp : 0 ≤ u.tree.pointerLayers := hcore.pointers
  have hr : 0 ≤ u.tree.referenceLayers := hcore.references
  cases he : u.known? with
  | none =>
    refine ⟨?_, ?_, ?_, ?_⟩
    · simp only [baseName, he, Option.elim_none, TypeTree.baseName]
      split
      · exact TypeRef.label_unqualified _
      · exact hbase.unqualified
    · simp only [arguments, he, Option.elim_none]
      exact hbase.arguments.orElse (by simp [Bracketed])
    · simpa [pointers, he] using hp
    · simpa [references, he] using hr
  | some known =>
    have hknown := h known (mem_of_known? he)
    have hkp := hknown.pointers
    have hkr := hknown.references
    refine ⟨?_, ?_, ?_, ?_⟩
    · simpa only [baseName, he, Option.elim_some] using hknown.unqualified
    · simp only [arguments, he, Option.elim_some]
      exact hbase.arguments.orElse hknown.arguments
    · simp only [pointers, he, Option.elim_some]
      omega
    · simp only [references, he, Option.elim_some]
      omega

theorem resolve_of_none (h : u.known? = none) :
    (TypeSource.reported u.tree).resolve u.table u.scope = TypeRef.ofTree u.tree := by
  unfold known? at h
  rw [TypeSource.resolve, TypeSource.load, TypeRef.resolveIn]
  split
  · rfl
  · rename_i hk
    rw [if_neg hk] at h
    rw [h]

theorem resolve_of_some {known : TypeRef} (h : u.known? = some known) :
    (TypeSource.reported u.tree).resolve u.table u.scope = ((TypeRef.ofTree u.tree).refineBy known).addLayer known := by
  unfold known? at h
  rw [TypeSource.resolve, TypeSource.load, TypeRef.resolveIn]
  split at h
  · cases h
  · rename_i hk
    rw [if_neg hk, h]

theorem ofTree_eq (tree : TypeTree) : TypeRef.ofTree tree = { tree.base.core with
    rawName := tree.spelling, isConst := tree.anyConst, pointers := tree.pointerLayers,
    references := tree.referenceLayers } := by
  rw [TypeRef.ofTree, tree.core_eq_base]

theorem arguments_of_none (h : u.known? = none) : u.arguments = u.tree.arguments := by
  simp only [arguments, h, Option.elim_none]
  by_cases hnone : u.tree.arguments = ""
  · rw [if_pos hnone, hnone]
  · rw [if_neg hnone]

theorem resolve_eq (h : ∀ t ∈ u.table, t.fullName ≠ "") {type : TypeRef}
    (ht : (TypeSource.reported u.tree).resolve u.table u.scope = type) :
    type.isConst = u.isConst ∧ type.canonicalName = u.name ∧ type.pointers = u.pointers ∧
      type.references = u.references := by
  subst ht
  cases hk : u.known? with
  | none =>
    rw [resolve_of_none hk, ofTree_eq]
    refine ⟨?_, ?_, ?_, ?_⟩
    · simp [isConst, hk]
    · rw [name, arguments_of_none hk]
      simp only [baseName, hk, Option.elim_none]
      rfl
    · simp [pointers, hk]
    · simp [references, hk]
  | some known =>
    have hne := h known (mem_of_known? hk)
    rw [resolve_of_some hk, ofTree_eq]
    refine ⟨?_, ?_, ?_, ?_⟩
    · simp [TypeRef.addLayer, TypeRef.refineBy, isConst, hk]
    · simp only [TypeRef.canonicalName, TypeRef.addLayer, TypeRef.refineBy, if_neg hne, name, baseName, arguments, hk,
        Option.elim_some]
      rfl
    · simp [TypeRef.addLayer, TypeRef.refineBy, pointers, hk]
    · simp [TypeRef.addLayer, TypeRef.refineBy, references, hk]

theorem typeText_eq (h : ∀ t ∈ u.table, t.fullName ≠ "") (slot : String) :
    (Parameter.ofType ((TypeSource.reported u.tree).resolve u.table u.scope) slot).typeText = u.text := by
  obtain ⟨hconst, hname, hpointers, hreferences⟩ := resolve_eq h rfl
  simp only [Parameter.typeText, Parameter.ofType, text, hconst, hname, hpointers, hreferences]

/-! ## Uses with one text -/

/-- What two uses of types with the same text have in common. Where their names do not end like a
pointer or reference these are names and numbers of layers, and base and template arguments too where
a bracket starts the arguments. -/
structure Agrees (u v : TypeUse) : Prop where
  text : u.text = v.text
  isConst : u.isConst = v.isConst
  layers : EndsInName u.name → EndsInName v.name →
    u.name = v.name ∧ u.pointers = v.pointers ∧ u.references = v.references
  base : EndsInName u.name → EndsInName v.name → '<' ∉ u.baseName.toList → '<' ∉ v.baseName.toList →
    u.baseName = v.baseName ∧ u.arguments = v.arguments

theorem Tidy.name_unqualified (h : u.Tidy) : Unqualified u.name :=
  h.unqualified.append fun c hc => Or.inr (h.arguments c hc)

theorem Tidy.takeWhile_name (h : u.Tidy) (hb : '<' ∉ u.baseName.toList) :
    u.name.toList.takeWhile (· != '<') = u.baseName.toList := by
  have hplain : ∀ c ∈ u.baseName.toList, (c != '<') = true := by
    intro c hc
    rw [bne_iff_ne]
    rintro rfl
    exact hb hc
  rw [name, String.toList_append, List.takeWhile_append_of_pos hplain]
  cases ha : u.arguments.toList with
  | nil => simp
  | cons c rest =>
    have hc : c = '<' := h.arguments c (by rw [ha]; rfl)
    simp [hc]

theorem Tidy.agrees {v : TypeUse} (hu : u.Tidy) (hv : v.Tidy) (h : u.text = v.text) : u.Agrees v := by
  have hconst : u.isConst = v.isConst := decorate_isConst hu.name_unqualified hv.name_unqualified h
  have hlayers : EndsInName u.name → EndsInName v.name →
      u.name = v.name ∧ u.pointers = v.pointers ∧ u.references = v.references := by
    intro hnu hnv
    unfold text at h
    rw [hconst] at h
    obtain ⟨hname, hp, hr⟩ := decorate_inj hnu hnv h
    have hpu := hu.pointers
    have hpv := hv.pointers
    have hru := hu.references
    have hrv := hv.references
    exact ⟨hname, by omega, by omega⟩
  refine ⟨h, hconst, hlayers, ?_⟩
  intro hnu hnv hbu hbv
  have hname := (hlayers hnu hnv).1
  have hbase : u.baseName = v.baseName := by
    apply String.toList_inj.mp
    rw [← hu.takeWhile_name hbu, hname, hv.takeWhile_name hbv]
  refine ⟨hbase, ?_⟩
  have hlist : u.baseName ++ u.arguments = v.baseName ++ v.arguments := hname
  rw [hbase] at hlist
  exact String.append_right_inj _ |>.mp hlist

end TypeUse

end SymbolIndex
