import MatchCheck.Diagnostic.Basic

/-!
# Diagnostics as text

The form in which people read findings: a headline, the place, the line on which the finding begins
with carets under the reported stretch, and then notes and suggestions.

The carets stand under the line character by character: in front of them a tabulator is kept, so
that it is as wide as above, and any other character becomes a space. Their number is the difference
of columns when the finding ends on its first line; otherwise they reach to the end of that line.
There is always one.
-/

namespace MatchCheck.Diagnostic

/-- Puts spaces in front of a text up to a width. -/
def padLeft (width : Nat) (s : String) : String :=
  String.ofList (List.replicate (width - s.length) ' ') ++ s

/-- What stands in front of the carets: one character for each of the line that lies before the
given column, when the line begins at `column`. -/
def caretPadding (target column : Nat) : List Char → List Char
  | [] => []
  | c :: cs =>
    if column < target then
      (if c = '\t' then '\t' else ' ') :: caretPadding target (column + Text.unitSize c) cs
    else []

/-- The number of carets under a line. -/
def caretCount (span : Span) (line padding : List Char) : Nat :=
  if span.stop.line = span.start.line then max (span.stop.column - span.start.column) 1
  else max (line.length - padding.length) 1

/-- The line on which a finding begins, with carets under it. -/
def excerpt (span : Span) (line : List Char) : String :=
  let padding := caretPadding span.start.column 1 line
  let carets := List.replicate (caretCount span line padding) '^'
  "   |\n" ++ padLeft 3 (toString span.start.line) ++ " | " ++ String.ofList line ++ "\n   | "
    ++ String.ofList (padding ++ carets) ++ "\n"

/-- The headline and the place of a finding. -/
def headline (d : Diagnostic) : String :=
  d.severity.text ++ "[" ++ d.code ++ "]: " ++ d.message ++ "\n  --> " ++ d.span.file ++ ":"
    ++ toString d.span.start.line ++ ":" ++ toString d.span.start.column ++ "\n"

/-- A finding about the given text. The line is left out when the text has no such line. -/
def render (d : Diagnostic) (text : List Char) : String :=
  let line := (Text.splitLines text)[d.span.start.line - 1]?
  d.headline ++ (line.map (excerpt d.span)).getD ""
    ++ String.join (d.notes.map fun n => "   = note: " ++ n.message ++ "\n")
    ++ String.join (d.suggestions.map fun s => "   = help: " ++ s.title ++ "\n")

/-- Findings about one text, divided by empty lines. -/
def renderAll (ds : List Diagnostic) (text : List Char) : String :=
  "\n".intercalate (ds.map (·.render text))

end MatchCheck.Diagnostic
