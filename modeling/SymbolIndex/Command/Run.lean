import SymbolIndex.Command.Options
import SymbolIndex.Database.Export
import SymbolIndex.Scan
import SymbolIndex.Text.Control

/-!
# Running the command

Usage errors come first, then a request for help, then paths that do not exist. What the command
prints is a value: the two streams, the file written and the exit code.
-/

namespace SymbolIndex.Command

def version : String := "0.3.0"

def helpLines : List String :=
  ["Usage: cli [OPTIONS] [PATHS]...",
   "",
   "  Build a symbol database from C++ headers.",
   "",
   "  PATHS are header files or directories searched for .h/.hpp/.hxx files.",
   "",
   "Options:",
   "  -v, --version            Print version and exit.",
   "  -o, --output <file>      Write the database to <file> (default: stdout).",
   "  --summary                Print symbol counts instead of the JSON database.",
   "  -q, --quiet              Only report warnings and errors.",
   "  --debug / --no-debug     Print debug info to stderr.",
   "  -I, --include-dir <dir>  Add include search path.",
   "  -D, --define <macro>     Define preprocessor macro.",
   "  --std <std>              Language standard (default: c++17).",
   "  --clang-arg <arg>        Pass argument to clang.",
   "  --no-default-includes    Disable system include auto-detection.",
   "  -h, --help               Show this message and exit."]

/-- Lines as a text, each with its end. -/
def textOfLines (lines : List String) : String := String.join (lines.map (· ++ "\n"))

def helpText : String := textOfLines helpLines

def pathsMissingText : String := "Error: Missing argument 'PATHS...'.\n"

def libraryMissingText : String :=
  textOfLines
    ["Error: libclang is required but not available.",
     "Install LLVM/Clang (e.g., apt install libclang-dev, brew install llvm)",
     ""]

/-- The world around the command. -/
structure Host where
  disk : Disk
  tools : Toolchain
  libraryLoads : Bool

/-- What the command leaves behind. -/
structure Report where
  exitCode : Nat := 0
  output : String := ""
  errors : String := ""
  written : Option (String × String) := none
  frontend : Frontend := {}
  deriving DecidableEq, Repr

/-- Why the command ends without a report. -/
inductive Refusal where
  | usage (error : UsageError)
  | noSuchPath (path : String)
  | cannotWrite (path : String)
  | broken (type : BrokenType)
  deriving DecidableEq, Repr

namespace Refusal

def exitCode : Refusal → Nat
  | usage _ | noSuchPath _ => 2
  | cannotWrite _ | broken _ => 1

def message : Refusal → String
  | usage error => error.message
  | noSuchPath path => "Path " ++ path ++ " does not exist."
  | cannotWrite path => "Could not open file " ++ path
  | broken type => type.message

end Refusal

/-- The lowest level of notes that are shown. -/
def threshold (options : Options) : NoteLevel :=
  if options.debug then .debug else if options.quiet then .warning else .info

/-- The notes as lines. -/
def notesText (options : Options) (notes : List Note) : String :=
  let shown := notes.filter fun note => (threshold options).rank ≤ note.level.rank
  textOfLines (shown.map fun note => "[cxxdb] " ++ note.message)

/-- What is written of a database. -/
def resultText (options : Options) (db : Database) : String :=
  if options.summary then
    textOfLines (db.counts.map fun entry => entry.1 ++ ": " ++ entry.2.repr)
  else db.toText ++ "\n"

/-- The line that names the file a scan ended at. What the command says itself has no control
sequences, whatever a path holds. -/
def failureText (path : String) : String :=
  String.ofList (Text.plain ("Error: failed to parse " ++ path ++ "\n").toList)

/-- The report of a finished scan, with its result on the output or in a file. -/
def reportScan (disk : Disk) (options : Options) (scan : Scan) : Except Refusal Report :=
  let result := resultText options scan.collector.db
  let report : Report :=
    { exitCode := if scan.succeeded then 0 else 1
      errors := notesText options scan.notes
        ++ scan.failed.elim "" failureText
      frontend := scan.frontend }
  if options.output = "-" then .ok { report with output := result }
  else if disk.canWrite options.output then
    .ok { report with written := some (options.output, result) }
  else .error (.cannotWrite options.output)

/-- Run with options that have been read. -/
def runOptions (host : Host) (options : Options) : Except Refusal Report :=
  if options.help then .ok { output := helpText }
  else
    match options.paths.find? fun path => !host.disk.hasPath path with
    | some path => .error (.noSuchPath path)
    | none =>
      if options.version then .ok { output := version ++ "\n" }
      else if options.paths.isEmpty then .ok { exitCode := 2, errors := pathsMissingText }
      else if !host.libraryLoads then .ok { exitCode := 1, errors := libraryMissingText }
      else
        match Scan.runPaths host.tools host.disk options.paths options.extraArguments
            options.defaultIncludes with
        | .error type => .error (.broken type)
        | .ok scan => reportScan host.disk options scan

def run (host : Host) (arguments : List String) : Except Refusal Report :=
  match Options.read arguments with
  | .error error => .error (.usage error)
  | .ok options => runOptions host options

end SymbolIndex.Command
