import SymbolIndex.Proofs.Overloads

/-!
# Which methods are equal

Methods are compared by name and by the texts of their parameters' types. From such a text the type's name, its
constness and both its depths can be read off again, so nothing but these decides, and everything else about a
method plays no part.
-/

namespace SymbolIndex

namespace Parameter

/-- A parameter whose type's name does not look like a qualified type itself. -/
structure Plain (param : Parameter) : Prop where
  unqualified : Unqualified param.typeName
  endsInName : EndsInName param.typeName
  pointers : 0 ≤ param.pointers
  references : 0 ≤ param.references

theorem endsInName_iff (name : String) :
    name.toList.getLast? ≠ some '*' ∧ name.toList.getLast? ≠ some '&' ↔ EndsInName name := by
  unfold EndsInName
  cases name.toList.getLast? <;> simp

-- by a look at the last character, not through all there are
instance (name : String) : Decidable (EndsInName name) := decidable_of_iff _ (endsInName_iff name)

instance (param : Parameter) : Decidable param.Plain :=
  decidable_of_iff
    (Unqualified param.typeName ∧ EndsInName param.typeName ∧ 0 ≤ param.pointers ∧ 0 ≤ param.references)
    ⟨fun ⟨hu, he, hp, hr⟩ => ⟨hu, he, hp, hr⟩, fun h => ⟨h.unqualified, h.endsInName, h.pointers, h.references⟩⟩

structure SameType (a b : Parameter) : Prop where
  typeName : a.typeName = b.typeName
  isConst : a.isConst = b.isConst
  pointers : a.pointers = b.pointers
  references : a.references = b.references

theorem SameType.same {a b : Parameter} (h : a.SameType b) : a.same b = true := by
  rw [Parameter.same, beq_iff_eq, typeText, typeText, h.typeName, h.isConst, h.pointers, h.references]

theorem Plain.sameType {a b : Parameter} (ha : a.Plain) (hb : b.Plain) (h : a.same b = true) : a.SameType b := by
  rw [Parameter.same, beq_iff_eq, typeText, typeText] at h
  have hconst := decorate_isConst ha.unqualified hb.unqualified h
  rw [hconst] at h
  obtain ⟨hname, hpointers, hreferences⟩ := decorate_inj ha.endsInName hb.endsInName h
  have hpa := ha.pointers
  have hpb := hb.pointers
  have hra := ha.references
  have hrb := hb.references
  exact ⟨hname, hconst, by omega, by omega⟩

end Parameter

namespace Method

def Plain (method : Method) : Prop := ∀ param ∈ method.params, param.Plain

instance (method : Method) : Decidable method.Plain := inferInstanceAs (Decidable (∀ param ∈ method.params, param.Plain))

theorem same_iff_texts (a b : Method) :
    a.same b = true ↔ a.name = b.name ∧ a.params.map Parameter.typeText = b.params.map Parameter.typeText := by
  rw [Method.same, Bool.and_eq_true, beq_iff_eq, Signature.sameParams, pairwiseSame_iff, ← List.forall₂_eq_eq_eq,
    List.forall₂_map_left_iff, List.forall₂_map_right_iff]
  simp [Parameter.same]

theorem Plain.same_iff {a b : Method} (ha : a.Plain) (hb : b.Plain) :
    a.same b = true ↔ a.name = b.name ∧ List.Forall₂ Parameter.SameType a.params b.params := by
  rw [Method.same, Bool.and_eq_true, beq_iff_eq, Signature.sameParams, pairwiseSame_iff]
  refine and_congr_right fun _ => ⟨?_, fun h => h.imp fun _ _ hsame => hsame.same⟩
  unfold Plain at ha hb
  revert ha hb
  generalize a.params = as
  generalize b.params = bs
  intro ha hb h
  induction h with
  | nil => exact .nil
  | @cons p q ps qs hpq _ ih =>
    obtain ⟨hp, hps⟩ := List.forall_mem_cons.mp ha
    obtain ⟨hq, hqs⟩ := List.forall_mem_cons.mp hb
    exact .cons (hp.sameType hq hpq) (ih hps hqs)

end Method

/-- Plain methods are equal just if they have one name and as many parameters, which agree one by one in the name of
the type, in constness and in both depths. This is an equivalence, and a class implements a method just if one of
its own has that name and such parameters. -/
theorem methods_told_apart_by_name_and_types :
    (∀ a b : Method, a.Plain → b.Plain →
      (a.same b = true ↔ a.name = b.name ∧ List.Forall₂ Parameter.SameType a.params b.params)) ∧
    (Equivalence fun a b : { method : Method // method.Plain } => a.1.same b.1 = true) ∧
    ∀ (c : Class) (method : Method), (∀ own ∈ c.methods, own.Plain) → method.Plain →
      (c.implements method = true ↔
        ∃ own ∈ c.methods, own.name = method.name ∧ List.Forall₂ Parameter.SameType own.params method.params) := by
  refine ⟨fun a b ha hb => ha.same_iff hb, ⟨?_, ?_, ?_⟩, ?_⟩
  · intro a
    exact (Method.same_iff_texts ..).mpr ⟨rfl, rfl⟩
  · intro a b hab
    rw [Method.same_iff_texts] at hab ⊢
    exact ⟨hab.1.symm, hab.2.symm⟩
  · intro a b c hab hbc
    rw [Method.same_iff_texts] at hab hbc ⊢
    exact ⟨hab.1.trans hbc.1, hab.2.trans hbc.2⟩
  · intro c method howned hmethod
    rw [Class.implements, List.any_eq_true]
    exact exists_congr fun own => and_congr_right fun hown => (howned own hown).same_iff hmethod

namespace TwoResizes

def width : Parameter := { typeName := "::N::S", name := "width", isConst := true, pointers := 1, references := 1 }

def byAlias : Method :=
  { name := "resize", params := [{ width with name := "w", typeAlias := some "P" }, { typeName := "int" }],
    result := some { typeName := "bool" }, isVirtual := true }

def direct : Method := { name := "resize", params := [width, { typeName := "int", name := "h" }], isConst := true }

def deeper : Method := { name := "resize", params := [{ width with pointers := 2 }, { typeName := "int" }] }

def widget : Class := { name := "Widget", fullName := "::Widget", methods := [deeper, direct] }

end TwoResizes

open TwoResizes in
theorem resize_implemented_through_alias :
    (widget.methods.Forall Method.Plain ∧ byAlias.Plain) ∧ direct.same byAlias = true ∧ deeper.same byAlias = false ∧
      widget.implements byAlias = true := by
  have hplain : byAlias.Plain ∧ direct.Plain ∧ deeper.Plain := by decide
  have hmethods : ∀ own ∈ widget.methods, own.Plain := by decide
  obtain ⟨hsame, -, himplements⟩ := methods_told_apart_by_name_and_types
  have htypes : List.Forall₂ Parameter.SameType direct.params byAlias.params :=
    .cons ⟨rfl, rfl, rfl, rfl⟩ (.cons ⟨rfl, rfl, rfl, rfl⟩ .nil)
  refine ⟨⟨List.forall_iff_forall_mem.mpr hmethods, hplain.1⟩, ?_, ?_, ?_⟩
  · exact (hsame direct byAlias hplain.2.1 hplain.1).mpr ⟨rfl, htypes⟩
  · rw [Bool.eq_false_iff]
    intro h
    obtain ⟨-, hall⟩ := (hsame deeper byAlias hplain.2.2 hplain.1).mp h
    cases hall with
    | cons hfirst _ => exact absurd hfirst.pointers (by decide)
  · exact (himplements widget byAlias hmethods hplain.1).mpr ⟨direct, by decide, rfl, htypes⟩

end SymbolIndex
