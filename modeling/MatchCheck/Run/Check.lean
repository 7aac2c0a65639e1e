import MatchCheck.Cache.File
import MatchCheck.Diagnostic.Text
import MatchCheck.Run.Sources

/-!
# Checking files

Each source is checked in turn, or its remembered report is taken. The findings are printed as they
come, and a summary at the end. The reports are remembered when all sources could be read; a failure
to do so is no failure of the check.
-/

namespace MatchCheck.Run

/-- How the output of a command is to look like. -/
structure Style where
  json : Bool
  quiet : Bool
deriving DecidableEq, Repr

/-- A report, and whether it was remembered. -/
structure FileReport where
  report : Report
  cached : Bool
deriving DecidableEq, Repr

/-- Checks the text of a file. A remembered report is taken only if `useCache` says so; the report
is remembered in any case. -/
def checkFile (files : Files) (options : CheckOptions) (useCache : Bool) (cache : Cache) (p : Path)
    (text : String) : FileReport × Cache :=
  let contentHash := Hash.ofText text
  match if useCache then cache.lookup files p contentHash options.fingerprint else none with
  | some entry => (⟨entry.report, true⟩, cache)
  | none =>
    let report := Report.ofFindings (Source.check (.ofString p.text text) options)
    (⟨report, false⟩, cache.store files p ⟨contentHash, options.fingerprint, report⟩)

/-- What checking some files gave: the report of each with the text it is about, up to the first
that could not be read. -/
structure Checked where
  reports : List (String × FileReport)
  cache : Cache
  failure? : Option Failure

/-- Checks files one after the other. -/
def checkFiles (files : Files) (options : CheckOptions) (useCache : Bool) (cache : Cache) :
    List Path → Checked
  | [] => ⟨[], cache, none⟩
  | p :: ps =>
    match readSource files p with
    | .error failure => ⟨[], cache, some failure⟩
    | .ok text =>
      let (report, cache) := checkFile files options useCache cache p text
      let rest := checkFiles files options useCache cache ps
      { rest with reports := (text, report) :: rest.reports }

/-- A finding as it is printed. Only errors are shown when nothing else is wanted. -/
def printFinding (style : Style) (text : List Char) (d : Diagnostic) : Printed :=
  if style.json then .outLine d.jsonText
  else if style.quiet && d.severity ≠ .error then .nothing
  else .errLine (d.render text)

/-- The findings of a report. -/
def printReport (style : Style) (report : String × FileReport) : Printed :=
  .concat (report.2.report.diagnostics.map (printFinding style report.1.toList))

/-- The numbers of all reports together. -/
structure Summary where
  files : Nat
  cached : Nat
  errors : UInt64
  warnings : UInt64
deriving DecidableEq, Repr

namespace Summary

/-- The sum of a number over reports. It wraps around like the numbers that are added. -/
def total (number : Report → UInt64) (reports : List FileReport) : UInt64 :=
  reports.foldr (fun r sum => number r.report + sum) 0

/-- The summary of reports. -/
def ofReports (reports : List FileReport) : Summary :=
  ⟨reports.length, reports.countP (·.cached), total Report.errors reports,
    total Report.warnings reports⟩

/-- Whether the check fails: for an error, and if asked for, for a warning. -/
def hasIssues (s : Summary) (strict : Bool) : Bool :=
  0 < s.errors || (strict && 0 < s.warnings)

/-- How many files were checked. -/
def filesText (s : Summary) : String :=
  "Checked " ++ toString s.files ++ " file(s)"
    ++ (if 0 < s.cached then " (" ++ toString s.cached ++ " cached)" else "")

/-- What was found. -/
def issuesText (s : Summary) (strict : Bool) : String :=
  let errors := if 0 < s.errors then [toString s.errors ++ " error(s)"] else []
  let warnings := if 0 < s.warnings then
      [toString s.warnings ++ " warning(s)"
        ++ (if strict then " [treated as errors with --strict]" else "")]
    else []
  ", ".intercalate (errors ++ warnings)

/-- The summary as it is printed. -/
def print (s : Summary) (strict : Bool) (style : Style) : Printed :=
  if s.hasIssues strict then .errLine ("\n" ++ s.filesText ++ ", found " ++ s.issuesText strict)
  else if style.quiet || style.json then .nothing
  else if 0 < s.warnings then
    .outLine (s.filesText ++ ", no errors (" ++ toString s.warnings ++ " warning(s))")
  else .outLine (s.filesText ++ ", no errors found")

/-- The failure of a check with issues. -/
def failure? (s : Summary) (strict : Bool) : Option Failure :=
  if s.hasIssues strict then some (.issuesFound s.errors s.warnings) else none

end Summary

/-- Keeps the reports on files that are still there, whether that works or not. -/
def keep (files : Files) (root : Path) (cache : Cache) : Files :=
  ((cache.prune files).save files root).1

/-- Checks the sources that paths name, with the configuration that applies to the first. -/
def check (files : Files) (paths : List Path) (strict noCache : Bool) (style : Style) : Outcome :=
  match configFor files paths with
  | .error failure => ⟨.nothing, files, some failure⟩
  | .ok config =>
    match sources files config paths with
    | .error failure => ⟨.nothing, files, some failure⟩
    | .ok sources =>
      let root := Config.projectRoot files (startOf paths)
      let cache := if noCache then .empty else Cache.load files root
      let checked := checkFiles files config.options (!noCache) cache sources
      let printed := Printed.concat (checked.reports.map (printReport style))
      match checked.failure? with
      | some failure => ⟨printed, files, some failure⟩
      | none =>
        let summary := Summary.ofReports (checked.reports.map (·.2))
        let after := if noCache then files else keep files root checked.cache
        ⟨printed ++ summary.print strict style, after, summary.failure? strict⟩

/-! ### Watching -/

/-- What is printed when watching begins. -/
def watchBanner : String :=
  "Watching for changes... (Ctrl+C to stop)"

/-- A check whose failure does not end the watch: it is shown, and the watch goes on. -/
def recheck (files : Files) (paths : List Path) (strict noCache : Bool) (style : Style) : Outcome :=
  let outcome := check files paths strict noCache style
  ⟨outcome.shown false, outcome.files, none⟩

/-- The begin of a watch: a first check, after which all paths must be there to be watched. -/
def watch (files : Files) (paths : List Path) (strict noCache : Bool) (style : Style) : Outcome :=
  let first := recheck files paths strict noCache style
  ⟨.outLine (watchBanner ++ "\n") ++ first.printed, first.files,
    if paths.all first.files.has then none else some .unwatchable⟩

end MatchCheck.Run
