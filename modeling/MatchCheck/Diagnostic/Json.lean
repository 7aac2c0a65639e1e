import MatchCheck.Diagnostic.Basic
import MatchCheck.Json.Printer
import MatchCheck.Json.Reader

/-!
# Diagnostics as JSON

The form in which tools exchange findings. Each structure is an object with its fields in a fixed
order; a note without a place leaves the place out, and a finding leaves out empty lists of notes
and suggestions. Reading accepts the fields in any order and ignores unknown ones.
-/

namespace MatchCheck

namespace Span

/-- A span as JSON. -/
def toJson (s : Span) : Json :=
  .object [("file", .text s.file),
    ("start", .natural s.start.offset), ("end", .natural s.stop.offset),
    ("start_line", .natural s.start.line), ("start_col", .natural s.start.column),
    ("end_line", .natural s.stop.line), ("end_col", .natural s.stop.column)]

/-- Reads a span. -/
def ofJson? (j : Json) : Option Span := do
  let [some file, some start, some stop, some startLine, some startCol, some endLine, some endCol] ←
    j.record? 7 ["file", "start", "end", "start_line", "start_col", "end_line", "end_col"] | none
  return ⟨← file.text?, ⟨← start.word?, ← startLine.word?, ← startCol.word?⟩,
    ⟨← stop.word?, ← endLine.word?, ← endCol.word?⟩⟩

end Span

namespace Severity

/-- Reads a severity: its name, or an object that holds nothing under its name. -/
def ofJson? : Json → Option Severity
  | .text name => ofText? name
  | .object [(name, .null)] => ofText? name
  | _ => none

end Severity

namespace Note

/-- A note as JSON. -/
def toJson (n : Note) : Json :=
  .object (("message", .text n.message) :: (n.span.map fun s => ("span", s.toJson)).toList)

/-- Reads a note, whose place may be missing or null. -/
def ofJson? (j : Json) : Option Note := do
  let [some message, span] ← j.record? 2 ["message", "span"] | none
  let span ← match span with
    | none | some .null => pure none
    | some span => some <$> Span.ofJson? span
  return ⟨← message.text?, span⟩

end Note

namespace Edit

/-- An edit as JSON. -/
def toJson (e : Edit) : Json :=
  .object [("span", e.span.toJson), ("replacement", .text e.replacement)]

/-- Reads an edit. -/
def ofJson? (j : Json) : Option Edit := do
  let [some span, some replacement] ← j.record? 2 ["span", "replacement"] | none
  return ⟨← Span.ofJson? span, ← replacement.text?⟩

end Edit

namespace Suggestion

/-- A suggestion as JSON. -/
def toJson (s : Suggestion) : Json :=
  .object [("title", .text s.title), ("edits", .array (s.edits.map Edit.toJson))]

/-- Reads a suggestion. -/
def ofJson? (j : Json) : Option Suggestion := do
  let [some title, some edits] ← j.record? 2 ["title", "edits"] | none
  return ⟨← title.text?, ← edits.items? Edit.ofJson?⟩

end Suggestion

namespace Diagnostic

/-- A member that is left out when its list is empty. -/
def listMember (name : String) (items : List Json) : List (String × Json) :=
  if items.isEmpty then [] else [(name, .array items)]

/-- A finding as JSON. -/
def toJson (d : Diagnostic) : Json :=
  .object ([("code", .text d.code), ("severity", .text d.severity.text),
      ("message", .text d.message),
      ("span", d.span.toJson)]
    ++ listMember "notes" (d.notes.map Note.toJson)
    ++ listMember "suggestions" (d.suggestions.map Suggestion.toJson))

/-- Reads a list that may be missing. -/
def optionalItems? {α : Type} (read : Json → Option α) : Option Json → Option (List α)
  | none => some []
  | some j => j.items? read

/-- Reads a finding. -/
def ofJson? (j : Json) : Option Diagnostic := do
  let [some code, some severity, some message, some span, notes, suggestions] ←
    j.record? 4 ["code", "severity", "message", "span", "notes", "suggestions"] | none
  return ⟨← code.text?, ← Severity.ofJson? severity, ← message.text?, ← Span.ofJson? span,
    ← optionalItems? Note.ofJson? notes, ← optionalItems? Suggestion.ofJson? suggestions⟩

/-- A finding as JSON text. -/
def jsonText (d : Diagnostic) : String :=
  String.ofList d.toJson.compact

/-- Reads a finding from JSON text. -/
def ofJsonText? (s : String) : Option Diagnostic :=
  (Json.ofChars? s.toList).bind ofJson?

/-- Findings as the JSON text of an array. -/
def listJsonText (ds : List Diagnostic) : String :=
  "[" ++ ",".intercalate (ds.map jsonText) ++ "]"

end Diagnostic

end MatchCheck
