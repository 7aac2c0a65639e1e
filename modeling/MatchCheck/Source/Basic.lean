import MatchCheck.Source.Span

/-!
# Source files

A source is a text with the name of the file it came from. It answers where an offset falls and
what stands on a line. Every span that the analysis reports can be asked for here again:
`Source.span` is the reference against which the spans of tokens are stated.
-/

namespace MatchCheck

/-- A named text. -/
structure Source where
  path : String
  text : List Char
deriving DecidableEq, Repr

namespace Source

/-- A source from a file name and its content. -/
def ofString (path content : String) : Source :=
  ⟨path, content.toList⟩

/-- The place of a byte offset. The offset itself is kept as given, also when it lies inside a
character or past the end. -/
def position (source : Source) (offset : Nat) : Position :=
  { Position.seek offset .first source.text with offset := offset }

/-- The span between two byte offsets. -/
def span (source : Source) (start stop : Nat) : Span :=
  ⟨source.path, source.position start, source.position stop⟩

/-- The number of lines: one more than the number of line ends. -/
def lineCount (source : Source) : Nat :=
  (Text.lineStarts source.text).length

/-- The line with the given number, counted from one. -/
def line? (source : Source) (number : Nat) : Option (List Char) :=
  Text.line? source.text number

@[simp] theorem span_file (source : Source) (start stop : Nat) :
    (source.span start stop).file = source.path := rfl

@[simp] theorem position_offset (source : Source) (offset : Nat) :
    (source.position offset).offset = offset := rfl

end Source

end MatchCheck
