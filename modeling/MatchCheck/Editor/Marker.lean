import MatchCheck.Check.Basic

/-!
# Markers

An editor shows the findings of a document as markers: a range of lines and columns with a message.
-/

namespace MatchCheck.Editor

/-- A finding as an editor shows it. -/
structure Marker where
  startLine : Nat
  startColumn : Nat
  endLine : Nat
  endColumn : Nat
  severity : Severity
  message : String
  code : String
deriving DecidableEq, Repr

/-- The marker of a finding. -/
def Marker.ofDiagnostic (d : Diagnostic) : Marker :=
  ⟨d.span.start.line, d.span.start.column, d.span.stop.line, d.span.stop.column, d.severity,
    d.message, d.code⟩

/-- The name under which a document without a file is checked. -/
def inputName : String := "<input>"

/-- The markers of a document. -/
def markers (text : List Char) (options : CheckOptions) : List Marker :=
  (Source.check ⟨inputName, text⟩ options).map .ofDiagnostic

end MatchCheck.Editor
