import SymbolIndex.Collector.Visit
import SymbolIndex.Frontend.Parse
import SymbolIndex.Headers

/-!
# Scanning headers

A scan parses files in order and collects their declarations into one database. It stops at the
first file that cannot be parsed and keeps all that came before.
-/

namespace SymbolIndex

/-- How the files of a scan are parsed. -/
structure ScanMode where
  arguments : List String := []
  defaultIncludes : Bool := false
  deriving DecidableEq, Repr

structure Scan where
  collector : Collector
  frontend : Frontend := {}
  notes : List Note := []
  /-- Files that were parsed and collected. -/
  files : List String := []
  /-- The file that ended the scan. -/
  failed : Option String := none
  deriving DecidableEq, Repr

namespace Scan

def succeeded (scan : Scan) : Bool := scan.failed.isNone

/-- The scan after a file that could not be parsed. -/
def fail (scan : Scan) (path : String) (failure : ParseFailure) : Scan :=
  { scan with
    notes := scan.notes ++ Note.unparsable path :: failure.errors.map .failure
    failed := some path }

/-- The scan after a file whose declarations are collected. -/
def finishFile (scan : Scan) (path : String) (collector : Collector) (notes : List Note) : Scan :=
  { scan with
    collector := collector
    notes := scan.notes ++ notes ++ [.counted collector.db.counts]
    files := scan.files ++ [path] }

/-- Scan files in order. -/
def run (tools : Toolchain) (mode : ScanMode) : List String → Scan → Except BrokenType Scan
  | [], scan => .ok scan
  | path :: paths, scan =>
    let outcome := scan.frontend.parse tools path mode.arguments none mode.defaultIncludes
    let scan :=
      { scan with
        frontend := outcome.frontend, notes := scan.notes ++ Note.importing path :: outcome.notes }
    match outcome.result with
    | .error failure => .ok (scan.fail path failure)
    | .ok unit =>
      match scan.collector.collect unit with
      | (_, .error broken) => .error broken
      | ((collector, notes), .ok _) => run tools mode paths (scan.finishFile path collector notes)

/-- Scan the headers below the collector's own roots. -/
def runRoots (tools : Toolchain) (disk : Disk) (mode : ScanMode) (collector : Collector) :
    Except BrokenType Scan :=
  run tools mode (collector.roots.flatMap disk.headers) { collector := collector }

/-- The directory that a path makes a root: itself, or the one that it stands in. -/
def rootFor (disk : Disk) (path : String) : String :=
  if disk.isFolder path then path else Path.directoryOf disk.base path

/-- Scan files and directories as C++, each with its own root. -/
def runPaths (tools : Toolchain) (disk : Disk) (paths : List String) (extra : List String)
    (defaultIncludes : Bool) : Except BrokenType Scan :=
  let collector := Collector.start disk.base (paths.map (rootFor disk)) {}
  run tools { arguments := ["-x", "c++"] ++ extra, defaultIncludes }
    (paths.flatMap disk.headers) { collector := collector }

end Scan

end SymbolIndex
