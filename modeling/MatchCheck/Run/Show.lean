import MatchCheck.Diagnostic.Explanation
import MatchCheck.Editor.Json
import MatchCheck.Run.Check

/-!
# Showing what editors see, and explaining codes

These commands print and change nothing.
-/

namespace MatchCheck.Run

/-- A coloured stretch on a line of its own. -/
def printMark (m : Editor.Mark) : Printed :=
  .outLine ("     " ++ Diagnostic.padLeft 4 (toString m.startIndex) ++ "  " ++ m.scope.name)

/-- A line of a file with its coloured stretches below it. -/
def printLine (number : Nat) (line : List Char) : Printed :=
  .outLine (Diagnostic.padLeft 4 (toString number) ++ " | " ++ String.ofList line)
    ++ .concat ((Editor.highlight line).map printMark)

/-- The lines of a file with the coloured stretches of each. -/
def printTokens (text : List Char) : Printed :=
  .concat ((Text.splitLines text).zipIdx.map fun (line, index) => printLine (index + 1) line)

/-- Shows how an editor colours a file. -/
def tokens (files : Files) (file : Path) (style : Style) : Outcome :=
  match readSource files file with
  | .error failure => ⟨.nothing, files, some failure⟩
  | .ok text =>
    let lines := Editor.highlightLines text.toList
    let printed := if style.json then
        .outLine (String.ofList (Json.array (lines.map Editor.lineToJson)).pretty)
      else printTokens text.toList
    ⟨printed, files, none⟩

/-- Shows what an editor marks in a file. -/
def validate (files : Files) (file : Path) : Outcome :=
  match readSource files file with
  | .error failure => ⟨.nothing, files, some failure⟩
  | .ok text =>
    match configFor files [file] with
    | .error failure => ⟨.nothing, files, some failure⟩
    | .ok config =>
      let markers := (Editor.markers text.toList config.options).map Editor.Marker.toJson
      ⟨.outLine (String.ofList (Json.array markers).pretty), files, none⟩

/-- What is printed about the codes there are. -/
def codeRanges : String :=
  "Valid codes:\n  E0xxx  Syntax errors (E0001-E0012)\n"
    ++ "  E1xxx  Declaration and pattern errors (E1001-E1017)\n  W0xxx  Warnings (W0003)"

/-- Explains a code. -/
def explain (files : Files) (code : String) : Outcome :=
  match Code.ofText? code with
  | some c => ⟨.outLine c.explanation, files, none⟩
  | none => ⟨.errLine codeRanges, files, some (.unknownCode code)⟩

end MatchCheck.Run
