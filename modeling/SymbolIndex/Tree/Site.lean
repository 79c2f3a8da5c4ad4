import SymbolIndex.Tree.Kind

/-!
# Places in a declaration tree

A place is one node as other parts of the program see it: an identity, a kind and a spelling. Two
parses of one file give different places for the same declaration, which may share a token that
makes them the same. A site is a place with the places around it, as the language's scoping sees
them, innermost first.
-/

namespace SymbolIndex

structure Place where
  serial : Nat
  token : Option String
  kind : NodeKind
  spelling : String
  deriving DecidableEq, Repr

/-- Two places are the same node, or carry the same token. -/
def Place.same (a b : Place) : Bool :=
  a.serial == b.serial || (a.token.isSome && a.token == b.token)

theorem Place.same_refl (a : Place) : a.same a = true := by simp [same]

theorem Place.same_comm (a b : Place) : a.same b = b.same a := by
  rw [Bool.eq_iff_iff]
  simp only [same, Bool.or_eq_true, Bool.and_eq_true, beq_iff_eq]
  constructor
  · rintro (h | ⟨h, e⟩)
    · exact .inl h.symm
    · exact .inr ⟨e ▸ h, e.symm⟩
  · rintro (h | ⟨h, e⟩)
    · exact .inl h.symm
    · exact .inr ⟨e ▸ h, e.symm⟩

structure Site where
  place : Place
  outer : List Place
  deriving DecidableEq, Repr

namespace Site

def kind (site : Site) : NodeKind := site.place.kind

def spelling (site : Site) : String := site.place.spelling

/-- The place and everything around it, innermost first. -/
def chain (site : Site) : List Place := site.place :: site.outer

/-- Names of the namespaces and classes around a declaration, outermost first. The chain counts up
to the node of the whole file. -/
def scopePath (site : Site) : List String :=
  let inner := site.outer.takeWhile fun place => place.kind != .sourceUnit
  let named := inner.filter fun place => place.kind.opensScope && place.spelling != ""
  (named.map Place.spelling).reverse

end Site

end SymbolIndex
