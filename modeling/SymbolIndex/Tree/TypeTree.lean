import SymbolIndex.Tree.Site

/-!
# Types as the parser reports them

A type is a stack of pointer, reference and elaboration layers over a builtin type, over an array or
function declarator, or over a named type. Each layer has its own spelling and its own `const`.
-/

namespace SymbolIndex

inductive Builtin where
  | void
  | bool
  | char
  | signedChar
  | unsignedChar
  | wideChar
  | char16
  | char32
  | unsignedShort
  | unsignedInt
  | unsignedLong
  | unsignedLongLong
  | short
  | int
  | long
  | longLong
  | float
  | double
  | longDouble
  deriving DecidableEq, Repr

namespace Builtin

def name : Builtin → String
  | void => "void"
  | bool => "bool"
  | char => "char"
  | signedChar => "signed char"
  | unsignedChar => "unsigned char"
  | wideChar => "wchar_t"
  | char16 => "char16_t"
  | char32 => "char32_t"
  | unsignedShort => "unsigned short"
  | unsignedInt => "unsigned int"
  | unsignedLong => "unsigned long"
  | unsignedLongLong => "unsigned long long"
  | short => "short"
  | int => "int"
  | long => "long"
  | longLong => "long long"
  | float => "float"
  | double => "double"
  | longDouble => "long double"

def all : List Builtin :=
  [void, bool, char, signedChar, unsignedChar, wideChar, char16, char32, unsignedShort, unsignedInt,
   unsignedLong, unsignedLongLong, short, int, long, longLong, float, double, longDouble]

/-- The names of the builtin types. -/
def names : List String := all.map name

end Builtin

inductive NamedKind where
  | invalid
  | record
  | enumeration
  | typedef
  | other
  deriving DecidableEq, Repr

/-- How one layer of a type is written, and whether it is itself `const`. -/
structure Written where
  spelling : String := ""
  isConst : Bool := false
  deriving DecidableEq, Repr

inductive TypeTree where
  | builtin (written : Written) (type : Builtin)
  | declarator (written : Written)
  | named (written : Written) (kind : NamedKind) (declaration : Option Site)
  | pointer (written : Written) (pointee : TypeTree)
  | reference (written : Written) (rvalue : Bool) (referent : TypeTree)
  | elaborated (written : Written) (type : TypeTree)
  deriving DecidableEq, Repr

namespace TypeTree

/-- What the parser reports where there is no type. -/
def missing : TypeTree := .named {} .invalid none

def written : TypeTree → Written
  | builtin written _ | declarator written | named written _ _ | pointer written _
  | reference written _ _ | elaborated written _ => written

def spelling (type : TypeTree) : String := type.written.spelling

def isInvalid : TypeTree → Bool
  | named _ .invalid _ => true
  | _ => false

def isVoid : TypeTree → Bool
  | builtin _ .void => true
  | _ => false

end TypeTree

/-- Result and argument types of a function type. -/
structure Prototype where
  result : TypeTree := .missing
  arguments : List TypeTree := []
  isVariadic : Bool := false
  deriving DecidableEq, Repr

end SymbolIndex
