import MatchCheck.Text.Length
import MatchCheck.Text.Split

/-!
# Lines of a text

A line ends at a line feed, at a carriage return followed by a line feed, or at a carriage return
that stands alone. A text therefore has one line more than it has line ends, and the last line may
be empty. The lines are available in two forms: `splitLines` cuts the text, and `lineStarts` lists
the byte offsets at which lines begin, from which `line?` reads one line back.
-/

namespace MatchCheck.Text

/-- Whether a character ends a line, given the text behind it. A carriage return in front of a
line feed does not: the pair ends the line once, at the line feed. -/
def endsLine (c : Char) (rest : List Char) : Bool :=
  c == '\n' || (c == '\r' && rest.head? != some '\n')

/-- Whether a character can be part of a line end. -/
def isLineBreak (c : Char) : Bool :=
  c == '\n' || c == '\r'

/-- The lines of a text, without their ends. There is always at least one. -/
def splitLines : List Char → List (List Char)
  | [] => [[]]
  | '\r' :: '\n' :: cs => [] :: splitLines cs
  | c :: cs => if isLineBreak c then [] :: splitLines cs else consFirst c (splitLines cs)

/-- The offsets at which a new line begins behind the given text position. -/
def lineStartsFrom (offset : Nat) : List Char → List Nat
  | [] => []
  | c :: cs =>
    let next := offset + c.utf8Size
    if endsLine c cs then next :: lineStartsFrom next cs else lineStartsFrom next cs

/-- The byte offsets at which the lines of a text begin. -/
def lineStarts (cs : List Char) : List Nat :=
  0 :: lineStartsFrom 0 cs

/-- The characters that begin at an offset from `start` on and before `stop`, when the first
character of the text stands at `offset`. -/
def between (start stop offset : Nat) : List Char → List Char
  | [] => []
  | c :: cs =>
    let rest := between start stop (offset + c.utf8Size) cs
    if start ≤ offset && offset < stop then c :: rest else rest

/-- Removes the carriage returns at the end of a text. -/
def trimReturns (cs : List Char) : List Char :=
  (cs.reverse.dropWhile (· == '\r')).reverse

/-- The line with the given number, counted from one and without its end. It reaches from the
line's start to just before the next start, where the last character of the line end stands. -/
def line? (cs : List Char) (number : Nat) : Option (List Char) :=
  match number with
  | 0 => none
  | index + 1 =>
    let starts := lineStarts cs
    starts[index]?.map fun start =>
      let stop := (starts[index + 1]?.map (· - 1)).getD (byteLength cs)
      trimReturns (between start stop 0 cs)

theorem splitLines_ne_nil (cs : List Char) : splitLines cs ≠ [] := by
  fun_induction splitLines cs with
  | case1 => simp
  | case2 => simp
  | case3 => simp
  | case4 c cs _ _ ih =>
    cases h : splitLines cs with
    | nil => exact absurd h ih
    | cons => simp [consFirst]

end MatchCheck.Text
