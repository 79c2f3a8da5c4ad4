import SymbolIndex.Tree.Kind

/-!
# Notes

What the program reports while it works, each with a level and the part that reports it.
-/

namespace SymbolIndex

inductive NoteLevel where
  | debug
  | info
  | warning
  | error
  deriving DecidableEq, Repr

def NoteLevel.rank : NoteLevel → Nat
  | debug => 0
  | info => 1
  | warning => 2
  | error => 3

/-- The part of the program that a note comes from. -/
inductive Facility where
  | database
  | collector
  | scan
  | parser
  deriving DecidableEq, Repr

inductive Note where
  | repeatedClass (fullName : String)
  | unhandledDecl (kind : NodeKind) (spelling : String)
  | unhandledMember (kind : NodeKind) (spelling : String)
  | classWithoutScope (name : String)
  | aliasWithoutScope (name : String)
  | aliasOfUnknown (scope name target : String)
  | unknownBase (fullName base : String)
  | importing (path : String)
  | counted (counts : List (String × Nat))
  | unparsable (path : String)
  | failure (diagnostic : String)
  | remark (path diagnostic : String)
  | includesUndetected
  | libraryChosen (path : String)
  deriving DecidableEq, Repr

namespace Note

def level : Note → NoteLevel
  | repeatedClass _ | unhandledDecl _ _ | unhandledMember _ _ | remark _ _ | includesUndetected
  | libraryChosen _ => .debug
  | aliasWithoutScope _ | aliasOfUnknown _ _ _ | unknownBase _ _ | importing _ | counted _ => .info
  | classWithoutScope _ => .warning
  | unparsable _ | failure _ => .error

def facility : Note → Facility
  | repeatedClass _ => .database
  | unhandledDecl _ _ | unhandledMember _ _ | classWithoutScope _ | aliasWithoutScope _
  | aliasOfUnknown _ _ _ | unknownBase _ _ => .collector
  | importing _ | counted _ | unparsable _ | failure _ => .scan
  | remark _ _ | includesUndetected | libraryChosen _ => .parser

def message : Note → String
  | repeatedClass fullName => "Skipping duplicate declaration of " ++ fullName
  | unhandledDecl kind spelling => "Unhandled decl: " ++ kind.name ++ " -> " ++ spelling
  | unhandledMember kind spelling => "Unhandled member: " ++ kind.name ++ " -> " ++ spelling
  | classWithoutScope name => "(!) Couldn't find context for class " ++ name
  | aliasWithoutScope name => "(i) Could not solve typedef " ++ name
  | aliasOfUnknown scope name target =>
    "(i) typedef " ++ scope ++ "::" ++ name ++ ": " ++ target ++ " is not a known type"
  | unknownBase fullName base => "(i) " ++ fullName ++ " base class " ++ base ++ " cannot be solved"
  | importing path => "Importing " ++ path
  | counted counts =>
    "Found " ++ ", ".intercalate (counts.map fun entry => entry.2.repr ++ " " ++ entry.1)
  | unparsable path => "Failed to parse file " ++ path
  | failure diagnostic => "  " ++ diagnostic
  | remark path diagnostic => path ++ ": " ++ diagnostic
  | includesUndetected => "System include detection failed, continuing without it"
  | libraryChosen path => "Using libclang from " ++ path

end Note

end SymbolIndex
