import SymbolIndex.Proofs.History
import SymbolIndex.Scan

/-!
# Scans stop at the first failure

A scan is told by the parser's answers alone: it ends with the first file that fails, its database is that
of the files before, and more files after a scan that went well continue it.
-/

namespace SymbolIndex

namespace ParserReply

def fails : ParserReply → Bool
  | loadError _ => true
  | parsed _ diagnostics => diagnostics.any (·.severity.isError)

def unit? : ParserReply → Option SourceUnit
  | loadError _ => none
  | parsed unit _ => some unit

theorem fails_of_judge {reply : ParserReply} {path : String} {failure : ParseFailure}
    (h : (reply.judge path).2 = .error failure) : reply.fails = true := by
  cases reply with
  | loadError text => rfl
  | parsed unit diagnostics =>
    simp only [judge] at h
    split at h
    · cases h
    · rename_i herrors
      simpa [fails, List.partition_eq_filter_filter] using herrors

theorem unit_of_judge {reply : ParserReply} {path : String} {unit : SourceUnit}
    (h : (reply.judge path).2 = .ok unit) : reply.fails = false ∧ reply.unit? = some unit := by
  cases reply with
  | loadError text => cases h
  | parsed unit' diagnostics =>
    simp only [judge] at h
    split at h
    · rename_i herrors
      cases h
      exact ⟨by simpa [fails, List.partition_eq_filter_filter] using herrors, rfl⟩
    · cases h

end ParserReply

namespace Toolchain

/-- The position of the first path that fails, or the number of paths if none does. -/
def firstFailure (tools : Toolchain) (paths : List String) : Nat :=
  paths.findIdx fun path => (tools.parser path).fails

def units (tools : Toolchain) (paths : List String) : List SourceUnit :=
  paths.filterMap fun path => (tools.parser path).unit?

theorem firstFailure_cons (tools : Toolchain) (path : String) (paths : List String) :
    tools.firstFailure (path :: paths) =
      if (tools.parser path).fails then 0 else tools.firstFailure paths + 1 := by
  rw [firstFailure, List.findIdx_cons, firstFailure]
  cases (tools.parser path).fails <;> rfl

theorem units_cons {tools : Toolchain} {path : String} {unit : SourceUnit}
    (h : (tools.parser path).unit? = some unit) (paths : List String) :
    tools.units (path :: paths) = unit :: tools.units paths := by
  simp [units, h]

end Toolchain

theorem Frontend.parse_calls (frontend : Frontend) (tools : Toolchain) (path : String) (arguments : List String)
    (text : Option String) (defaults : Bool) :
    (frontend.parse tools path arguments text defaults).frontend.calls.map ParserCall.path =
      frontend.calls.map ParserCall.path ++ [path] := by
  simp [parse]

/-! ## Units one after the other -/

/-- The database after walks of units in order, each of them with no template open at its start. -/
def Database.collectEach (base : String) (roots : List String) :
    List SourceUnit → Database → Except BrokenType Database
  | [], db => .ok db
  | unit :: units, db =>
    match unit.walk Collector.step ({ db, base, roots }, []) with
    | (_, .error broken) => .error broken
    | ((c, _), .ok _) => collectEach base roots units c.db

namespace Collector

theorem collectEach_cons (c : Collector) (unit : SourceUnit) (units : List SourceUnit) :
    c.db.collectEach c.base c.roots (unit :: units) =
      match c.collect unit with
      | (_, .error broken) => .error broken
      | ((c', _), .ok _) => c'.db.collectEach c.base c.roots units := rfl

theorem collect_paths (c : Collector) (unit : SourceUnit) :
    (c.collect unit).1.1.base = c.base ∧ (c.collect unit).1.1.roots = c.roots := by
  refine Forest.walk_invariant (P := fun s : Collector × List Note => s.1.base = c.base ∧ s.1.roots = c.roots) ?_
    ⟨rfl, rfl⟩
  rintro ⟨c', notes⟩ parent node - ⟨hb, hr⟩
  obtain ⟨hb', hr'⟩ := c'.visit_paths node.1 parent.site
  exact ⟨hb'.trans hb, hr'.trans hr⟩

end Collector

/-! ## Scans -/

/-- What a scan leaves, but for its notes. -/
structure Report where
  db : Database
  parsed : List String
  files : List String
  failed : Option String

namespace Scan

def report (scan : Scan) : Report :=
  ⟨scan.collector.db, scan.frontend.calls.map ParserCall.path, scan.files, scan.failed⟩

def after (earlier later : Scan) : Scan :=
  { later with notes := earlier.notes ++ later.notes, files := earlier.files ++ later.files }

variable (tools : Toolchain) (mode : ScanMode)

def asked (scan : Scan) (path : String) : Scan :=
  let outcome := scan.frontend.parse tools path mode.arguments none mode.defaultIncludes
  { scan with frontend := outcome.frontend, notes := scan.notes ++ Note.importing path :: outcome.notes }

theorem run_cons (path : String) (paths : List String) (scan : Scan) :
    run tools mode (path :: paths) scan =
      match ((tools.parser path).judge path).2 with
      | .error failure => .ok ((scan.asked tools mode path).fail path failure)
      | .ok unit =>
        match scan.collector.collect unit with
        | (_, .error broken) => .error broken
        | ((c, notes), .ok _) => run tools mode paths ((scan.asked tools mode path).finishFile path c notes) := rfl

theorem run_report : ∀ (paths : List String) (scan : Scan), scan.failed = none →
    (run tools mode paths scan).map report =
      (scan.collector.db.collectEach scan.collector.base scan.collector.roots
        (tools.units (paths.take (tools.firstFailure paths)))).map fun db =>
          { db := db
            parsed := scan.report.parsed ++ paths.take (tools.firstFailure paths + 1)
            files := scan.files ++ paths.take (tools.firstFailure paths)
            failed := paths[tools.firstFailure paths]? }
  | [], scan, hs => by
    simp [run, Except.map, report, Toolchain.units, Database.collectEach, hs]
  | path :: paths, scan, hs => by
    have hcalls := scan.frontend.parse_calls tools path mode.arguments none mode.defaultIncludes
    rw [run_cons, Toolchain.firstFailure_cons]
    cases hj : ((tools.parser path).judge path).2 with
    | error failure =>
      rw [if_pos (ParserReply.fails_of_judge hj)]
      simp [Except.map, report, fail, asked, hcalls, Toolchain.units, Database.collectEach]
    | ok unit =>
      obtain ⟨hf, hu⟩ := ParserReply.unit_of_judge hj
      obtain ⟨hb, hr⟩ := scan.collector.collect_paths unit
      rw [if_neg (by simp [hf])]
      simp only [List.take_succ_cons]
      rw [Toolchain.units_cons hu, Collector.collectEach_cons]
      generalize scan.collector.collect unit = walked at hb hr
      obtain ⟨⟨c, notes⟩, answer⟩ := walked
      cases answer with
      | error broken => rfl
      | ok finished =>
        have hnext : ((scan.asked tools mode path).finishFile path c notes).failed = none := hs
        simp only at hb hr ⊢
        rw [run_report paths _ hnext]
        simp [finishFile, asked, report, hcalls, hb, hr]

section
variable {paths : List String} {scan : Scan} (unfailed : scan.failed = none)
include unfailed

theorem run_error_iff {broken : BrokenType} : run tools mode paths scan = .error broken ↔
    scan.collector.db.collectEach scan.collector.base scan.collector.roots
      (tools.units (paths.take (tools.firstFailure paths))) = .error broken := by
  have hreport := run_report tools mode paths scan unfailed
  generalize run tools mode paths scan = result at hreport
  generalize Database.collectEach _ _ _ _ = walked at hreport
  cases result <;> cases walked <;> simp_all [Except.map]

theorem run_ok {last : Scan} (h : run tools mode paths scan = .ok last) :
    scan.collector.db.collectEach scan.collector.base scan.collector.roots
      (tools.units (paths.take (tools.firstFailure paths))) = .ok last.collector.db ∧
    last.report.parsed = scan.report.parsed ++ paths.take (tools.firstFailure paths + 1) ∧
    last.files = scan.files ++ paths.take (tools.firstFailure paths) ∧
    last.failed = paths[tools.firstFailure paths]? := by
  have hreport := run_report tools mode paths scan unfailed
  rw [h] at hreport
  generalize Database.collectEach _ _ _ _ = walked at hreport
  cases walked with
  | error broken => cases hreport
  | ok db =>
    simp only [Except.map, Except.ok.injEq, report, Report.mk.injEq] at hreport
    obtain ⟨rfl, hparsed, hfiles, hfailed⟩ := hreport
    exact ⟨rfl, hparsed, hfiles, hfailed⟩

end

theorem run_after (earlier : Scan) : ∀ (paths : List String) (scan : Scan),
    run tools mode paths (earlier.after scan) = (run tools mode paths scan).map earlier.after
  | [], scan => rfl
  | path :: paths, scan => by
    have hasked : (earlier.after scan).asked tools mode path = earlier.after (scan.asked tools mode path) := by
      simp [after, asked]
    rw [run_cons, run_cons, hasked]
    cases ((tools.parser path).judge path).2 with
    | error failure => simp [Except.map, after, fail]
    | ok unit =>
      have hcollector : (earlier.after scan).collector = scan.collector := rfl
      rw [hcollector]
      simp only
      generalize scan.collector.collect unit = walked
      obtain ⟨⟨c, notes⟩, answer⟩ := walked
      cases answer with
      | error broken => rfl
      | ok finished =>
        have hfinished : (earlier.after (scan.asked tools mode path)).finishFile path c notes =
            earlier.after ((scan.asked tools mode path).finishFile path c notes) := by
          simp [after, finishFile]
        simp only
        rw [hfinished]
        exact run_after earlier paths _

theorem run_append {ys : List String} {last : Scan} (hlast : last.failed = none) :
    ∀ {xs : List String} {scan : Scan}, run tools mode xs scan = .ok last →
      run tools mode (xs ++ ys) scan = run tools mode ys last
  | [], scan, h => by
    cases h
    rfl
  | path :: xs, scan, h => by
    rw [run_cons] at h
    rw [List.cons_append, run_cons]
    cases hj : ((tools.parser path).judge path).2 with
    | error failure =>
      rw [hj] at h
      cases h
      cases hlast
    | ok unit =>
      rw [hj] at h
      simp only at h ⊢
      generalize scan.collector.collect unit = walked at h ⊢
      obtain ⟨⟨c, notes⟩, answer⟩ := walked
      cases answer with
      | error broken => cases h
      | ok finished => exact run_append hlast h

end Scan

theorem Toolchain.firstFailure_eq_length (tools : Toolchain) (paths : List String) :
    paths[tools.firstFailure paths]? = none ↔ tools.firstFailure paths = paths.length := by
  have hle : tools.firstFailure paths ≤ paths.length := List.findIdx_le_length
  rw [List.getElem?_eq_none_iff]
  omega

open Scan in
/-- A scan asks the parser for the files up to the first one that fails and takes all but that one. It
breaks off only where the walk of an earlier file does. After a scan that went well, a scan of more files is
one scan of them all. -/
theorem scan_stops_at_first_failure (tools : Toolchain) (mode : ScanMode) (c : Collector) (frontend : Frontend) :
    (∀ paths : List String,
      let k := tools.firstFailure paths
      let walked := c.db.collectEach c.base c.roots (tools.units (paths.take k))
      (∀ broken, run tools mode paths { collector := c, frontend } = .error broken ↔ walked = .error broken) ∧
      ∀ scan, run tools mode paths { collector := c, frontend } = .ok scan →
        scan.frontend.calls.map ParserCall.path = frontend.calls.map ParserCall.path ++ paths.take (k + 1) ∧
        scan.files = paths.take k ∧ (scan.succeeded = true ↔ k = paths.length) ∧ scan.failed = paths[k]? ∧
        walked = .ok scan.collector.db) ∧
    ∀ (xs ys : List String) (first : Scan),
      run tools mode xs { collector := c, frontend } = .ok first → first.succeeded = true →
        run tools mode (xs ++ ys) { collector := c, frontend } =
          (run tools mode ys { collector := first.collector, frontend := first.frontend }).map first.after := by
  constructor
  · intro paths k walked
    constructor
    · intro broken
      exact run_error_iff tools mode rfl
    · intro scan hrun
      obtain ⟨hdb, hparsed, hfiles, hfailed⟩ := run_ok tools mode rfl hrun
      refine ⟨hparsed, hfiles, ?_, hfailed, hdb⟩
      rw [succeeded, hfailed, Option.isNone_iff_eq_none]
      exact tools.firstFailure_eq_length paths
  · intro xs ys first hrun hfirst
    have hfailed : first.failed = none := Option.isNone_iff_eq_none.mp hfirst
    have hresumed : first.after { collector := first.collector, frontend := first.frontend } = first := by
      simp [after, ← hfailed]
    rw [run_append tools mode hfailed hrun, ← run_after, hresumed]

namespace FailingFile

-- `struct S { … };` in a file of its own
def unit (serial : Nat) (name : String) : SourceUnit where
  root := .wholeFile serial
  forest := .ofList [((Decl.wholeFile serial).within (serial + 1) .structDecl name, .nil)]

def tools : Toolchain where
  platform := .linux
  parser
    | "a.h" => .parsed (unit 0 "A") [⟨.warning, "unused"⟩]
    | "b.h" => .parsed (unit 2 "B") [⟨.note, "here"⟩, ⟨.fatal, "no such file"⟩]
    | "c.h" => .parsed (unit 4 "C") []
    | _ => .loadError "cannot load"
  compiler := .failed

def fresh : Collector := .start "/" [] {}

end FailingFile

open FailingFile in
theorem scan_with_failing_file :
    ∃ first scan, Scan.run tools {} ["a.h"] { collector := fresh } = .ok first ∧
      Scan.run tools {} ["a.h", "b.h", "c.h"] { collector := fresh } = .ok scan ∧
      scan.frontend.calls.map ParserCall.path = ["a.h", "b.h"] ∧ scan.files = ["a.h"] ∧ scan.succeeded = false ∧
      scan.failed = some "b.h" ∧
      (fresh.db.collectEach fresh.base fresh.roots [unit 0 "A"]) = .ok scan.collector.db ∧
      (Scan.run tools {} ["b.h", "c.h"] { collector := first.collector, frontend := first.frontend }).map first.after =
        .ok scan := by
  obtain ⟨hstops, hcontinues⟩ := scan_stops_at_first_failure tools {} fresh {}
  obtain ⟨first, hfirst⟩ : ∃ first, Scan.run tools {} ["a.h"] { collector := fresh } = .ok first := ⟨_, rfl⟩
  obtain ⟨scan, hscan⟩ : ∃ scan, Scan.run tools {} ["a.h", "b.h", "c.h"] { collector := fresh } = .ok scan := ⟨_, rfl⟩
  obtain ⟨hparsed, hfiles, hsucceeded, hfailed, hdb⟩ := (hstops ["a.h", "b.h", "c.h"]).2 scan hscan
  have hwell : first.succeeded = true := ((hstops ["a.h"]).2 first hfirst).2.2.1.mpr rfl
  refine ⟨first, scan, hfirst, hscan, hparsed, hfiles, ?_, hfailed, hdb, ?_⟩
  · rw [Scan.succeeded, hfailed]
    rfl
  · rw [← hcontinues ["a.h"] ["b.h", "c.h"] first hfirst hwell]
    exact hscan

end SymbolIndex
