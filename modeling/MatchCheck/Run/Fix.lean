import MatchCheck.Fix.Basic
import MatchCheck.Json.Printer
import MatchCheck.Run.Check

/-!
# Fixing files

Each source is checked and its suggestions are applied. A file with errors in its syntax is left
alone, since the places in it cannot be relied on. A dry run says what would be done.
-/

namespace MatchCheck.Run

/-- What fixing files did. -/
structure FixProgress where
  files : Files
  printed : Printed
  /-- The number of edits made in all files. -/
  edits : Nat
  /-- The number of files that changed. -/
  changed : Nat

/-- Whether a code belongs to the syntax. -/
def isSyntaxCode (code : String) : Bool :=
  code.toList.take 2 = ['E', '0']

/-- The text of a source after its fixes, if it changes. -/
def fixText (options : CheckOptions) (only? : Option (List String)) (p : Path) (text : String) :
    Option Fixed :=
  let ds := Source.check (.ofString p.text text) options
  if ds.any fun d => isSyntaxCode d.code then none
  else
    let fixed := Fixed.ofFindings text.toList ds only?
    if fixed.text = text.toList then none else some fixed

/-- What is printed about a file that changed. -/
def printFixed (style : Style) (dryRun : Bool) (p : Path) (count : Nat) : Printed :=
  if style.json then
    .outLine (String.ofList (Json.object [("applied", .bool (!dryRun)), ("file", .text p.text),
      ("fixes", .natural count)]).compact)
  else if style.quiet then .nothing
  else
    .outLine ((if dryRun then "Would fix " else "Fixed ") ++ toString count ++ " issue(s) in "
      ++ p.text)

/-- Fixes one file. -/
def fixFile (options : CheckOptions) (only? : Option (List String)) (dryRun : Bool) (style : Style)
    (p : Path) (progress : FixProgress) : Except Failure FixProgress := do
  let text ← readSource progress.files p
  match fixText options only? p text with
  | none => return progress
  | some fixed =>
    let files ← if dryRun then pure progress.files
      else match progress.files.write p (String.ofList fixed.text) with
        | .ok files => pure files
        | .error cause => .error (.unwritable p cause)
    return ⟨files, progress.printed ++ printFixed style dryRun p fixed.count,
      progress.edits + fixed.count, progress.changed + 1⟩

/-- Fixes files one after the other, up to the first that fails. -/
def fixFiles (options : CheckOptions) (only? : Option (List String)) (dryRun : Bool) (style : Style)
    (progress : FixProgress) : List Path → FixProgress × Option Failure
  | [] => (progress, none)
  | p :: ps =>
    match fixFile options only? dryRun style p progress with
    | .ok progress => fixFiles options only? dryRun style progress ps
    | .error failure => (progress, some failure)

/-- What is printed at the end. -/
def printFixes (style : Style) (dryRun : Bool) (progress : FixProgress) : Printed :=
  let across := toString progress.changed ++ " file(s)"
  if style.json || style.quiet then .nothing
  else if dryRun then
    .outLine ("\nDry run: " ++ toString progress.edits ++ " fix(es) would be applied across "
      ++ across)
  else if 0 < progress.edits then
    .outLine ("\nApplied " ++ toString progress.edits ++ " fix(es) across " ++ across)
  else .outLine "No auto-fixable issues found"

/-- Fixes the sources that paths name, with the configuration that applies to the first. -/
def fix (files : Files) (paths : List Path) (only? : Option String) (dryRun : Bool)
    (style : Style) : Outcome :=
  match configFor files paths with
  | .error failure => ⟨.nothing, files, some failure⟩
  | .ok config =>
    match sources files config paths with
    | .error failure => ⟨.nothing, files, some failure⟩
    | .ok sources =>
      let (progress, failure?) := fixFiles config.options (only?.map Fixed.codesOf) dryRun style
        ⟨files, .nothing, 0, 0⟩ sources
      match failure? with
      | some failure => ⟨progress.printed, progress.files, some failure⟩
      | none => ⟨progress.printed ++ printFixes style dryRun progress, progress.files, none⟩

end MatchCheck.Run
