import SymbolIndex.Frontend.Includes
import SymbolIndex.Tree.Forest

/-!
# Parsing files

The parser is outside: it answers a path with a unit and diagnostics, or cannot load it. An error
among the diagnostics makes the parse a failure, and all lesser ones are noted.
-/

namespace SymbolIndex

inductive Severity where
  | ignored
  | note
  | warning
  | error
  | fatal
  deriving DecidableEq, Repr

def Severity.isError : Severity → Bool
  | error | fatal => true
  | _ => false

structure Diagnostic where
  severity : Severity
  text : String
  deriving DecidableEq, Repr

/-- What the parser answers for a path. -/
inductive ParserReply where
  | loadError (text : String)
  | parsed (unit : SourceUnit) (diagnostics : List Diagnostic)

/-- One call of the parser. Text given along stands in for the file. -/
structure ParserCall where
  path : String
  arguments : List String
  text : Option String
  deriving DecidableEq, Repr

/-- A file that cannot be parsed, with the errors reported. -/
structure ParseFailure where
  path : String
  errors : List String
  deriving DecidableEq, Repr

def ParseFailure.message (failure : ParseFailure) : String :=
  "Parse error in " ++ failure.path ++ ": "
    ++ if failure.errors.isEmpty then "no translation unit produced" else "; ".intercalate failure.errors

/-- The world around the parser. -/
structure Toolchain where
  platform : Platform
  parser : String → ParserReply
  compiler : CompilerReply

/-- What has been learned and asked so far. -/
structure Frontend where
  includes : Includes := {}
  calls : List ParserCall := []
  deriving DecidableEq, Repr

/-- The arguments ask for C++. -/
def asksForCplus (arguments : List String) : Bool :=
  arguments.contains "c++"
    || arguments.any fun argument => "-std=c++".toList.isPrefixOf argument.toList

/-- Judge the parser's answer for a path. -/
def ParserReply.judge (path : String) : ParserReply → List Note × Except ParseFailure SourceUnit
  | loadError text => ([], .error ⟨path, [text]⟩)
  | parsed unit diagnostics =>
    let (errors, lesser) := diagnostics.partition (·.severity.isError)
    let notes := lesser.map fun diagnostic => Note.remark path diagnostic.text
    (notes, if errors.isEmpty then .ok unit else .error ⟨path, errors.map Diagnostic.text⟩)

/-- What comes of parsing one file. -/
structure ParseOutcome where
  frontend : Frontend
  notes : List Note
  result : Except ParseFailure SourceUnit

namespace Frontend

/-- Parse a file, with the system's include directories if `defaults` asks for them. -/
def parse (frontend : Frontend) (tools : Toolchain) (path : String) (arguments : List String)
    (text : Option String) (defaults : Bool) : ParseOutcome :=
  let (includes, more, notes) :=
    if defaults then
      frontend.includes.arguments tools.platform tools.compiler (asksForCplus arguments)
    else (frontend.includes, [], [])
  let call : ParserCall := ⟨path, arguments ++ more, text⟩
  let (remarks, result) := (tools.parser path).judge path
  { frontend := { includes := includes, calls := frontend.calls ++ [call] }
    notes := notes ++ remarks
    result := result }

end Frontend

end SymbolIndex
