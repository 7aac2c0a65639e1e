import MatchCheck.Editor.Highlight
import MatchCheck.Editor.Marker
import MatchCheck.Json.Printer

/-!
# What editors are told

The coloured stretches and the markers of a file as JSON, in the form in which editors take them.
-/

namespace MatchCheck.Editor

/-- A coloured stretch as JSON. -/
def Mark.toJson (m : Mark) : Json :=
  .object [("startIndex", .natural m.startIndex), ("scopes", .text m.scope.name)]

/-- The coloured stretches of a line as JSON. No state is handed on to the next line. -/
def lineToJson (marks : List Mark) : Json :=
  .object [("tokens", .array (marks.map Mark.toJson)), ("endState", .object [])]

/-- A marker as JSON. -/
def Marker.toJson (m : Marker) : Json :=
  .object [("startLine", .natural m.startLine), ("startColumn", .natural m.startColumn),
    ("endLine", .natural m.endLine), ("endColumn", .natural m.endColumn),
    ("severity", .text m.severity.text), ("message", .text m.message), ("code", .text m.code)]

end MatchCheck.Editor
