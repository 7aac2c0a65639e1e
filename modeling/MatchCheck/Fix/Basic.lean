import MatchCheck.Diagnostic.Basic
import MatchCheck.Text.Cut
import MatchCheck.Text.Split
import MatchCheck.Text.Trim

/-!
# Applying suggestions

Of each finding the first suggestion is applied. The edits are made from the end of the text towards
its front, so that the offsets of those still to come stay valid. An edit is left out if it reaches
into one that was made, if it is turned around, or if it does not begin and end between characters.
-/

namespace MatchCheck

namespace Edit

/-- Whether an edit is made before another one: it begins later, or it begins at the same offset and
does not end earlier. -/
def comesFirst (e f : Edit) : Bool :=
  f.span.start.offset < e.span.start.offset
    || (e.span.start.offset = f.span.start.offset && f.span.stop.offset ≤ e.span.stop.offset)

/-- Whether two edits are about the same stretch. -/
def sameStretch (e f : Edit) : Bool :=
  e.span.start.offset = f.span.start.offset && e.span.stop.offset = f.span.stop.offset

/-- Keeps the first of neighbours that are about the same stretch. -/
def dropRepeats : List Edit → List Edit
  | [] => []
  | e :: es =>
    match dropRepeats es with
    | [] => [e]
    | f :: fs => if e.sameStretch f then e :: fs else e :: f :: fs

/-- Makes an edit in a text of which only the bytes in front of `limit` may change. -/
def splice? (e : Edit) (limit : Nat) (text : List Char) : Option (List Char) :=
  if limit < e.span.stop.offset || e.span.stop.offset < e.span.start.offset then none
  else do
    let (front, rest) ← Text.cut? e.span.start.offset text
    let (_, behind) ← Text.cut? (e.span.stop.offset - e.span.start.offset) rest
    return front ++ e.replacement.toList ++ behind

end Edit

/-- A text after edits. -/
structure Fixed where
  text : List Char
  /-- The number of edits that were made. -/
  count : Nat
deriving DecidableEq, Repr

namespace Fixed

/-- Makes edits one after the other, each in front of the last one made. -/
def applyAll (limit : Nat) (fixed : Fixed) : List Edit → Fixed
  | [] => fixed
  | e :: es =>
    match e.splice? limit fixed.text with
    | some text => applyAll e.span.start.offset ⟨text, fixed.count + 1⟩ es
    | none => applyAll limit fixed es

/-- The codes in a list that is divided by commas. -/
def codesOf (only : String) : List String :=
  (Text.splitOn ',' only.toList).map fun code => String.ofList (Text.trim code)

/-- The edits that findings suggest first, of all codes or of those given. -/
def edits (only? : Option (List String)) (ds : List Diagnostic) : List Edit :=
  let selected := ds.filter fun d =>
    match only? with
    | none => true
    | some codes => codes.contains d.code
  selected.flatMap fun d => (d.suggestions.take 1).flatMap (·.edits)

/-- Applies the suggestions of findings to the text they are about. -/
def ofFindings (text : List Char) (ds : List Diagnostic) (only? : Option (List String)) : Fixed :=
  applyAll (Text.byteLength text) ⟨text, 0⟩
    (Edit.dropRepeats ((edits only? ds).mergeSort Edit.comesFirst))

end Fixed

end MatchCheck
