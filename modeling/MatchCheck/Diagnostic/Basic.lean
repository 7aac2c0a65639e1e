import MatchCheck.Diagnostic.Code
import MatchCheck.Source.Span

/-!
# Diagnostics

A diagnostic is one finding: a code, a severity, a message and the span it is about, with notes that
point elsewhere and suggestions that would mend it. Findings are collected in lists, in the order in
which they are reported.
-/

namespace MatchCheck

/-- How grave a finding is. -/
inductive Severity where
  | error
  | warning
  | info
  | hint
deriving DecidableEq, Repr, Inhabited

namespace Severity

/-- The severity as it is printed. -/
def text : Severity → String
  | error => "error"
  | warning => "warning"
  | info => "info"
  | hint => "hint"

/-- The severity with the given text. -/
def ofText? : String → Option Severity
  | "error" => some error
  | "warning" => some warning
  | "info" => some info
  | "hint" => some hint
  | _ => none

@[simp] theorem ofText?_text (s : Severity) : ofText? s.text = some s := by
  cases s <;> rfl

end Severity

/-- A remark beside a finding, with the place it speaks of if there is one. -/
structure Note where
  message : String
  span : Option Span
deriving DecidableEq, Repr

/-- The replacement of a stretch of a file. -/
structure Edit where
  span : Span
  replacement : String
deriving DecidableEq, Repr

/-- A change that would mend a finding. -/
structure Suggestion where
  title : String
  edits : List Edit
deriving DecidableEq, Repr

/-- A finding. -/
structure Diagnostic where
  code : String
  severity : Severity
  message : String
  span : Span
  notes : List Note
  suggestions : List Suggestion
deriving DecidableEq, Repr

namespace Diagnostic

/-- An error without notes and suggestions. -/
def error (code : Code) (message : String) (span : Span) : Diagnostic :=
  ⟨code.text, .error, message, span, [], []⟩

/-- A warning without notes and suggestions. -/
def warning (code : Code) (message : String) (span : Span) : Diagnostic :=
  ⟨code.text, .warning, message, span, [], []⟩

/-- Adds a note behind the others. -/
def addNote (d : Diagnostic) (message : String) (span : Option Span) : Diagnostic :=
  { d with notes := d.notes ++ [⟨message, span⟩] }

/-- Adds a suggestion of one edit behind the others. -/
def addSuggestion (d : Diagnostic) (title : String) (edit : Edit) : Diagnostic :=
  { d with suggestions := d.suggestions ++ [⟨title, [edit]⟩] }

/-- Whether a finding is an error. -/
def isError (d : Diagnostic) : Bool :=
  d.severity == .error

/-- Whether a finding is a warning. -/
def isWarning (d : Diagnostic) : Bool :=
  d.severity == .warning

/-- The number of errors among findings. -/
def errorCount (ds : List Diagnostic) : Nat :=
  ds.countP isError

/-- The number of warnings among findings. -/
def warningCount (ds : List Diagnostic) : Nat :=
  ds.countP isWarning

/-- Orders findings by the offset at which they begin. Findings that begin at one offset keep their
order. -/
def sortByStart (ds : List Diagnostic) : List Diagnostic :=
  ds.mergeSort fun d e => d.span.start.offset ≤ e.span.start.offset

end Diagnostic

end MatchCheck
