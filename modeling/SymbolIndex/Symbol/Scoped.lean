import SymbolIndex.Symbol.Signature

/-!
# Namespaces, classes and enums

A class without bases, constructors and methods is empty: that is how a forward declaration looks,
and only an empty class takes a new origin from a later declaration.
-/

namespace SymbolIndex

structure Namespace where
  name : String
  fullName : String
  deriving DecidableEq, Repr

def Namespace.text (ns : Namespace) : String := "namespace " ++ ns.fullName

/-- The key a class is declared with. A record made by hand may have a word of its own there. -/
inductive ClassKey where
  | structKey
  | classKey
  | other (word : String)
  deriving DecidableEq, Repr

namespace ClassKey

def word : ClassKey → String
  | structKey => "struct"
  | classKey => "class"
  | other word => word

def ofWord (word : String) : ClassKey :=
  if word = "struct" then structKey else if word = "class" then classKey else other word

@[simp]
theorem word_ofWord (w : String) : (ofWord w).word = w := by
  unfold ofWord
  repeat' split
  all_goals simp_all [word]

/-- Only the key of a struct makes a struct of the type. -/
def typeKind : ClassKey → TypeKind
  | structKey => .structType
  | _ => .classType

/-- The access in force where the members start. -/
def access : ClassKey → Access
  | structKey => .everyone
  | _ => .owner

end ClassKey

structure Class where
  name : String
  fullName : String
  key : ClassKey := .classKey
  fromFile : String := ""
  includePath : String := ""
  bases : List String := []
  knownBases : List String := []
  constructors : List Method := []
  methods : List Method := []
  fields : List Field := []
  templateParams : List TemplateParameter := []
  deriving DecidableEq, Repr

namespace Class

def isEmpty (c : Class) : Bool := c.constructors.isEmpty && c.methods.isEmpty && c.bases.isEmpty

def isTemplate (c : Class) : Bool := !c.templateParams.isEmpty

/-- A method of this name with these parameters is declared. -/
def implements (c : Class) (method : Method) : Bool := c.methods.any (·.same method)

def text (c : Class) : String := c.key.word ++ " " ++ c.fullName

/-- Equal throughout, where members count as equal by their own relations. -/
def same (a b : Class) : Bool :=
  a.name == b.name && a.fullName == b.fullName && a.key == b.key && a.fromFile == b.fromFile
    && a.includePath == b.includePath && a.bases == b.bases && a.knownBases == b.knownBases
    && pairwiseSame Method.same a.constructors b.constructors
    && pairwiseSame Method.same a.methods b.methods
    && pairwiseSame Field.same a.fields b.fields
    && a.templateParams == b.templateParams

end Class

structure Enum where
  name : String
  fullName : String
  fromFile : String := ""
  constants : List (String × Int) := []
  deriving DecidableEq, Repr

/-- Give a name a value. A name that has one keeps its position. -/
def putConstant (name : String) (value : Int) : List (String × Int) → List (String × Int)
  | [] => [(name, value)]
  | entry :: rest =>
    if entry.1 = name then (name, value) :: rest else entry :: putConstant name value rest

theorem lookup_putConstant (name : String) (value : Int) (constants : List (String × Int))
    (key : String) :
    (putConstant name value constants).lookup key
      = if key = name then some value else constants.lookup key := by
  induction constants with
  | nil => by_cases h : key = name <;> simp [putConstant, h]
  | cons entry rest ih =>
    obtain ⟨known, old⟩ := entry
    by_cases hn : known = name
    · subst hn
      by_cases hk : key = known
      · simp [putConstant, hk]
      · simp [putConstant, List.lookup_cons, hk, beq_eq_false_iff_ne.2 hk]
    · by_cases hk : key = known
      · subst hk
        simp [putConstant, hn]
      · simp [putConstant, hn, List.lookup_cons, beq_eq_false_iff_ne.2 hk, ih]

/-- A new name goes to the end, and a known one changes no position. -/
theorem map_fst_putConstant (name : String) (value : Int) (constants : List (String × Int)) :
    (putConstant name value constants).map Prod.fst
      = if name ∈ constants.map Prod.fst then constants.map Prod.fst
        else constants.map Prod.fst ++ [name] := by
  induction constants with
  | nil => rfl
  | cons entry rest ih =>
    by_cases h : entry.1 = name
    · simp [putConstant, h]
    · have h' : ¬ name = entry.1 := fun e => h e.symm
      simp only [putConstant, h, if_false, List.map_cons, ih, List.mem_cons, h', false_or]
      split <;> simp

namespace Enum

def text (e : Enum) : String := "enum " ++ e.fullName

/-- Equal throughout, where the order of constants does not count. -/
def same (a b : Enum) : Bool :=
  a.name == b.name && a.fullName == b.fullName && a.fromFile == b.fromFile
    && a.constants.length == b.constants.length
    && a.constants.all fun entry => b.constants.lookup entry.1 == some entry.2

end Enum

end SymbolIndex
