import Mathlib.Tactic.MkIffOfInductiveProp
import SymbolIndex.Proofs.Lists
import SymbolIndex.Proofs.Repetition
import SymbolIndex.Proofs.Run

/-!
# Events that fail

An event fails on a declaration without a type where one is needed: a data member that has none, or a
function with an argument of which neither the prototype nor the argument's own node gives one. It fails
before anything is written, so the database is what it was.
-/

namespace SymbolIndex

/-! ## Slots without a type -/

theorem resolveParameter_error_iff {type : TypeTree} {name : String} {broken : BrokenType} (table : List TypeRef)
    (scope : List String) :
    resolveParameter type table name scope = .error broken ↔ type.isInvalid = true ∧ broken = ⟨name⟩ := by
  unfold resolveParameter
  by_cases h : type.isInvalid = true
  · simp [h, eq_comm]
  · simp [h]

/-- The prototype has no type for some argument, and no node of the argument has one either. -/
def Decl.LacksArgument (decl : Decl) : Prop :=
  ∃ prototype, decl.prototype = some prototype ∧ ∃ (i : Nat) (type : TypeTree),
    prototype.arguments[i]? = some type ∧ type.isInvalid = true ∧
      ∀ argument, decl.arguments[i]? = some (some argument) → argument.type.isInvalid = true

theorem argumentSlots_getElem? : ∀ (types : List TypeTree) (nodes : List (Option Argument)) (i : Nat),
    (argumentSlots types nodes)[i]? = types[i]?.map (argumentSlot · nodes[i]?.join)
  | [], _, _ => by simp [argumentSlots]
  | type :: types, [], 0 => by simp [argumentSlots]
  | type :: types, [], i + 1 => by simp [argumentSlots, argumentSlots_getElem? types [] i]
  | type :: types, node :: nodes, 0 => by simp [argumentSlots]
  | type :: types, node :: nodes, i + 1 => by simp [argumentSlots, argumentSlots_getElem? types nodes i]

theorem argumentSlot_invalid_iff (type : TypeTree) (node : Option Argument) :
    (argumentSlot type node).1.isInvalid = true ↔
      type.isInvalid = true ∧ ∀ argument, node = some argument → argument.type.isInvalid = true := by
  unfold argumentSlot
  cases node with
  | none => simp
  | some argument => by_cases h : argument.type.isInvalid = true <;> simp [h]

theorem argumentSlot_unnamed {type : TypeTree} {node : Option Argument}
    (h : (argumentSlot type node).1.isInvalid = true) : (argumentSlot type node).2 = "" := by
  unfold argumentSlot at h ⊢
  cases node with
  | none => rfl
  | some argument =>
    by_cases ha : argument.type.isInvalid = true
    · simp [ha]
    · simp [ha] at h

theorem lacksArgument_iff {decl : Decl} {prototype : Prototype} (hp : decl.prototype = some prototype) :
    decl.LacksArgument ↔ ∃ slot ∈ argumentSlots prototype.arguments decl.arguments, slot.1.isInvalid = true := by
  constructor
  · rintro ⟨prototype', hp', i, type, htype, hinvalid, hnode⟩
    rw [hp] at hp'
    cases hp'
    refine ⟨argumentSlot type decl.arguments[i]?.join, ?_, ?_⟩
    · apply List.mem_of_getElem? (i := i)
      rw [argumentSlots_getElem?, htype]
      rfl
    · rw [argumentSlot_invalid_iff]
      exact ⟨hinvalid, fun argument h => hnode argument (Option.join_eq_some_iff.mp h)⟩
  · rintro ⟨slot, hslot, hinvalid⟩
    obtain ⟨i, hi⟩ := List.mem_iff_getElem?.mp hslot
    rw [argumentSlots_getElem?] at hi
    obtain ⟨type, htype, rfl⟩ := Option.map_eq_some_iff.mp hi
    rw [argumentSlot_invalid_iff] at hinvalid
    refine ⟨prototype, hp, i, type, htype, hinvalid.1, ?_⟩
    intro argument h
    exact hinvalid.2 argument (Option.join_eq_some_iff.mpr h)

theorem readSignature_error_iff {decl : Decl} {broken : BrokenType} (table : List TypeRef) (scope : List String) :
    readSignature decl table scope = .error broken ↔ decl.LacksArgument ∧ broken = ⟨""⟩ := by
  unfold readSignature
  cases hp : decl.prototype with
  | none => simp [Decl.LacksArgument, hp]
  | some prototype =>
    rw [lacksArgument_iff hp]
    simp only
    have hslot : ∀ {slot : TypeTree × String} {e : BrokenType},
        slot ∈ argumentSlots prototype.arguments decl.arguments →
          resolveParameter slot.1 table slot.2 scope = .error e → slot.1.isInvalid = true ∧ e = ⟨""⟩ := by
      intro slot e hm he
      obtain ⟨hinvalid, rfl⟩ := (resolveParameter_error_iff table scope).mp he
      obtain ⟨i, hi⟩ := List.mem_iff_getElem?.mp hm
      rw [argumentSlots_getElem?] at hi
      obtain ⟨type, -, rfl⟩ := Option.map_eq_some_iff.mp hi
      exact ⟨hinvalid, by rw [argumentSlot_unnamed hinvalid]⟩
    cases hm : (argumentSlots prototype.arguments decl.arguments).mapM
        fun slot => resolveParameter slot.1 table slot.2 scope with
    | error e =>
      obtain ⟨slot, hmem, he⟩ := mapM_error hm
      obtain ⟨hinvalid, rfl⟩ := hslot hmem he
      constructor
      · intro h
        cases h
        exact ⟨⟨slot, hmem, hinvalid⟩, rfl⟩
      · rintro ⟨-, rfl⟩
        rfl
    | ok params =>
      constructor
      · intro h
        cases h
      · rintro ⟨⟨slot, hmem, hinvalid⟩, -⟩
        have hbroken : resolveParameter slot.1 table slot.2 scope = .error ⟨slot.2⟩ :=
          (resolveParameter_error_iff table scope).mpr ⟨hinvalid, rfl⟩
        obtain ⟨e, he⟩ := exists_mapM_error (f := fun slot => resolveParameter slot.1 table slot.2 scope) hbroken hmem
        rw [hm] at he
        cases he

/-! ## Declarations -/

@[mk_iff]
inductive Database.LacksType (db : Database) (decl : Decl) (parent : Site) : String → Prop where
  | field (member : (db.classAt? parent.place).isSome = true)
      (kind : decl.kind = .fieldDecl ∨ decl.kind = .variableDecl) (missing : decl.type.isInvalid = true) :
      LacksType db decl parent decl.spelling
  | method (member : (db.classAt? parent.place).isSome = true)
      (kind : decl.kind = .methodDecl ∨ decl.kind = .constructorDecl ∨ decl.kind = .functionTemplate)
      (missing : decl.LacksArgument) : LacksType db decl parent ""
  | function (free : db.classAt? parent.place = none)
      (kind : decl.kind = .functionDecl ∨ decl.kind = .functionTemplate) (missing : decl.LacksArgument) :
      LacksType db decl parent ""

theorem Database.LacksType.inner {db : Database} {decl : Decl} {parent : Site} {slot : String}
    (h : db.LacksType decl parent slot) : decl.kind.standsAlone = false ∧ Collector.takes decl.kind = none := by
  cases h with
  | field member kind missing =>
    rcases kind with hk | hk <;> simp [hk, NodeKind.standsAlone, NodeKind.isClass, Collector.takes]
  | method member kind missing =>
    rcases kind with hk | hk | hk <;> simp [hk, NodeKind.standsAlone, NodeKind.isClass, Collector.takes]
  | function free kind missing =>
    rcases kind with hk | hk <;> simp [hk, NodeKind.standsAlone, NodeKind.isClass, Collector.takes]

namespace Collector

variable {c : Collector} {decl : Decl} {parent : Site} {entry : ClassEntry} {broken : BrokenType}

theorem addField_error_iff {isStatic : Bool} : (c.addField entry decl isStatic).answer = .error broken ↔
    decl.type.isInvalid = true ∧ broken = ⟨decl.spelling⟩ := by
  rw [← resolveParameter_error_iff c.db.types (Scope.split entry.fullName)]
  unfold addField
  split
  · rename_i h
    simp [h]
  · rename_i h
    rw [h]
    simp only
    split <;> simp [answer]

theorem addMethod_error_iff : (c.addMethod entry decl).answer = .error broken ↔
    decl.LacksArgument ∧ broken = ⟨""⟩ := by
  rw [← readSignature_error_iff c.db.types (Scope.split entry.fullName)]
  unfold addMethod
  simp only
  split
  · rename_i h
    simp [h]
  · rename_i h
    rw [h]
    split <;> simp [answer]

theorem visitFunction_error_iff : (c.visitFunction decl parent).answer = .error broken ↔
    decl.LacksArgument ∧ broken = ⟨""⟩ := by
  rw [← readSignature_error_iff c.db.types (c.scopeOf parent), scopeOf]
  unfold visitFunction
  simp only
  split
  · rename_i h
    simp [h]
  · rename_i h
    rw [h]
    split
    · simp [answer]
    · split <;> simp [answer]

theorem visitMember_error_iff (known : c.db.classAt? parent.place = some entry) :
    (c.visitMember entry decl).answer = .error broken ↔ c.db.LacksType decl parent broken.slot := by
  obtain ⟨slot⟩ := broken
  rw [Database.lacksType_iff]
  unfold visitMember
  simp only
  split
  · rename_i hk
    simp [hk, known, answer]
  · rename_i hk
    unfold addBase
    simp only
    split <;> simp [hk, known, answer]
  · rename_i hk
    simp [hk, known, answer]
  · rename_i hk
    simp [hk, known, addMethod_error_iff]
  · rename_i hk
    simp [hk, known, addMethod_error_iff]
  · rename_i hk
    simp [hk, known, addMethod_error_iff]
  · rename_i hk
    simp [hk, known, addField_error_iff]
  · rename_i hk
    simp [hk, known, addField_error_iff]
  · rename_i hk
    simp [hk, known, answer]
  · rename_i h4 h5 h6 h7 h8 h9
    have hfield : ¬ (decl.kind = .fieldDecl ∨ decl.kind = .variableDecl) := not_or.mpr ⟨h7, h8⟩
    have hmethod : ¬ (decl.kind = .methodDecl ∨ decl.kind = .constructorDecl ∨ decl.kind = .functionTemplate) :=
      not_or.mpr ⟨h4, not_or.mpr ⟨h6, h5⟩⟩
    simp [hfield, hmethod, known, answer]

theorem visitClass_ok : ∃ d, (c.visitClass decl parent).answer = .ok d := by
  unfold visitClass
  simp only
  split
  · exact ⟨_, rfl⟩
  · split <;> exact ⟨_, rfl⟩

theorem visitDecl_ok_of_alone (c : Collector) (parent : Site) (h : decl.kind.standsAlone = true) :
    ∃ d, (c.visitDecl decl parent).answer = .ok d := by
  unfold visitDecl
  split
  · unfold visitNamespace
    simp only
    split <;> exact ⟨_, rfl⟩
  · unfold visitAlias
    simp only
    split <;> exact ⟨_, rfl⟩
  · unfold visitAlias
    simp only
    split <;> exact ⟨_, rfl⟩
  · unfold visitEnum
    simp only
    split <;> exact ⟨_, rfl⟩
  · exact ⟨_, rfl⟩
  · exact visitClass_ok
  · exact visitClass_ok
  · exact visitClass_ok
  · exact ⟨_, rfl⟩
  · exfalso
    cases hk : decl.kind <;> simp_all [NodeKind.standsAlone, NodeKind.isClass]

theorem visitDecl_error_iff :
    (c.visitDecl decl parent).answer = .error broken ↔ c.db.LacksType decl parent broken.slot := by
  by_cases hs : decl.kind.standsAlone = true
  · obtain ⟨d, hd⟩ := c.visitDecl_ok_of_alone parent hs
    rw [hd]
    constructor
    · intro h
      cases h
    · intro h
      rw [h.inner.1] at hs
      cases hs
  · have hs : decl.kind.standsAlone = false := by simpa using hs
    rw [c.visitDecl_of_inner hs]
    cases known : c.db.classAt? parent.place with
    | some entry => exact visitMember_error_iff known
    | none =>
      obtain ⟨slot⟩ := broken
      rw [Database.lacksType_iff]
      simp only
      split
      · rename_i hk
        simp [hk, known, visitFunction_error_iff]
      · rename_i hk
        simp [hk, known, answer]

theorem visit_of_untaken (counted : c.counts decl = true) (untaken : takes decl.kind = none) :
    c.visit decl parent = c.closeTemplates.visitDecl decl parent := by
  have hkind : decl.kind ≠ .typeRef := by
    intro hk
    simp [hk, takes] at untaken
  have hsettled : c.settleClass decl = { c with openClass := none } := by
    unfold settleClass
    split
    · rename_i hnone
      rw [← hnone]
    · simp [hkind]
  have hoffered : ({ c with openClass := none } : Collector).offerFunction decl parent = (c.closeTemplates, none) := by
    unfold offerFunction
    split
    · rename_i hnone
      have hnone : c.openFunction = none := hnone
      simp [closeTemplates, hnone]
    · split <;> simp_all [takes, closeTemplates]
  unfold counts at counted
  unfold visit
  rw [if_pos counted, hsettled, hoffered]

theorem visit_error_iff : (c.visit decl parent).answer = .error broken ↔
    c.counts decl = true ∧ c.db.LacksType decl parent broken.slot := by
  by_cases counted : c.counts decl = true
  · by_cases untaken : takes decl.kind = none
    · rw [visit_of_untaken counted untaken, visitDecl_error_iff]
      simp [counted, closeTemplates]
    · -- what an open template may take has no type to read
      have hnone : ∀ {db : Database}, ¬ db.LacksType decl parent broken.slot := fun h => untaken h.inner.2
      have hok : (c.visit decl parent).answer ≠ .error broken := by
        rcases c.visit_cases decl parent with ⟨-, h⟩ | ⟨-, c', d, -, -, h⟩ | ⟨-, c', -, -, -, h⟩
        · simp [h, answer]
        · simp [h, answer]
        · rw [h, Ne, visitDecl_error_iff]
          exact hnone
      simp [hok, hnone]
  · have hpassed : c.visit decl parent = c.answer c.db .pass [] := if_neg counted
    simp [hpassed, counted, answer]

theorem visit_of_error (h : (c.visit decl parent).answer = .error broken) :
    (c.visit decl parent).collector = c.closeTemplates := by
  obtain ⟨counted, hlacks⟩ := visit_error_iff.mp h
  rw [visit_of_untaken counted hlacks.inner.2] at h ⊢
  exact (c.closeTemplates.visitDecl_regular decl parent).failed broken h

end Collector

/-- An event fails exactly on a declaration, in a file that counts, without a type where one is needed, and
the error names the slot. The database is then what it was. -/
theorem event_fails_exactly_on_missing_type (c : Collector) (decl : Decl) (parent : Site) :
    (∀ broken, (c.visit decl parent).answer = .error broken ↔
        c.includes (c.fileOf decl) = true ∧ c.db.LacksType decl parent broken.slot) ∧
      ∀ broken, (c.visit decl parent).answer = .error broken → (c.visit decl parent).collector.db = c.db := by
  constructor
  · intro broken
    exact Collector.visit_error_iff
  · intro broken h
    rw [Collector.visit_of_error h]
    rfl

namespace MissingType

def whole : Decl := (Decl.wholeFile 0).within 1 .structDecl "S"
def template : Decl := whole.within 2 .functionTemplate "f"
def parameter : Decl := template.within 3 .templateTypeParameter "T"

-- `struct S { template <class T> void f(); };`
def unit : SourceUnit where
  root := .wholeFile 0
  forest := .ofList [(whole, .ofList [(template, .ofList [(parameter, .nil)])])]

-- `void g(int, ?);`, of whose second argument nothing is known
def method : Decl :=
  { whole.within 4 .methodDecl "g" with
    prototype := some { arguments := [.builtin {} .int, .missing] }
    arguments := [some ⟨"a", .missing⟩] }

def state : Collector := (Collector.start "/" [] {}).collectAll [unit]

end MissingType

open MissingType in
theorem method_without_argument_type :
    state.openFunction.isSome = true ∧ (state.visit method whole.site).answer = .error ⟨""⟩ ∧
      (state.visit method whole.site).collector.db = state.db := by
  obtain ⟨hfails, hkeeps⟩ := event_fails_exactly_on_missing_type state method whole.site
  have hlacks : method.LacksArgument := ⟨_, rfl, 1, .missing, rfl, rfl, by simp [method]⟩
  have herror := (hfails ⟨""⟩).mpr ⟨rfl, .method rfl (Or.inl rfl) hlacks⟩
  exact ⟨rfl, herror, hkeeps _ herror⟩

end SymbolIndex
