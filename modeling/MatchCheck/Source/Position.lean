import MatchCheck.Text.Line

/-!
# Places in a text

A `Position` is a byte offset together with the line and the column it falls on, both counted from
one. Columns count UTF-16 code units. `Position.step` moves over one character; the place of an
arbitrary offset is found by stepping from the front (`Position.seek`).
-/

namespace MatchCheck

/-- A place in a text: byte offset, line and UTF-16 column. -/
structure Position where
  offset : Nat
  line : Nat
  column : Nat
deriving DecidableEq, Repr, Inhabited

namespace Position

/-- The front of a text. -/
def first : Position := ⟨0, 1, 1⟩

/-- The place behind a character, given the text that follows it. -/
def step (p : Position) (c : Char) (rest : List Char) : Position :=
  if Text.endsLine c rest then ⟨p.offset + c.utf8Size, p.line + 1, 1⟩
  else ⟨p.offset + c.utf8Size, p.line, p.column + Text.unitSize c⟩

/-- Steps over characters until `target` is reached or the text ends. An offset inside a character
is reached behind it, and an offset past the end is reached at the end. -/
def seek (target : Nat) : Position → List Char → Position
  | p, [] => p
  | p, c :: cs => if p.offset < target then seek target (p.step c cs) cs else p

end Position

end MatchCheck
