import MatchCheck.Source.Position

/-!
# Spans

A span is a stretch of a named file between two places. Spans of tokens are combined into spans of
larger pieces by `Span.merge`, which keeps whole places: the earlier start with its line and column
and the later end with its line and column.
-/

namespace MatchCheck

/-- A stretch of a file. The places are kept as given, also where `stop` lies before `start`. -/
structure Span where
  file : String
  start : Position
  stop : Position
deriving DecidableEq, Repr, Inhabited

namespace Span

/-- The empty span at the front of a file. -/
def ofFile (file : String) : Span :=
  ⟨file, .first, .first⟩

/-- The smallest span that reaches over both, in the file of the first. Of two equal starts or ends
the first span's is kept. -/
def merge (s t : Span) : Span where
  file := s.file
  start := if s.start.offset ≤ t.start.offset then s.start else t.start
  stop := if t.stop.offset ≤ s.stop.offset then s.stop else t.stop

/-- The empty span at a span's start. -/
def shrinkToStart (s : Span) : Span :=
  { s with stop := s.start }

@[simp] theorem merge_file (s t : Span) : (s.merge t).file = s.file := rfl

@[simp] theorem shrinkToStart_file (s : Span) : s.shrinkToStart.file = s.file := rfl

@[simp] theorem shrinkToStart_start (s : Span) : s.shrinkToStart.start = s.start := rfl

@[simp] theorem shrinkToStart_stop (s : Span) : s.shrinkToStart.stop = s.start := rfl

@[simp] theorem merge_self (s : Span) : s.merge s = s := by
  simp [merge]

end Span

end MatchCheck
