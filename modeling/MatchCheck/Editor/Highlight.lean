import MatchCheck.Token.Basic

/-!
# Highlighting

An editor colours a line by the scopes of its tokens, each given by the index of its first UTF-16
code unit. No state is carried from one line to the next: no token crosses a line end.
-/

namespace MatchCheck.Editor

/-- The colour class of a token. -/
inductive Scope where
  | comment
  | controlKeyword
  | keyword
  | identifier
  | delimiter
  | white
  | invalid
deriving DecidableEq, Repr

namespace Scope

/-- The scope of a kind of token. -/
def ofKind : TokenKind → Scope
  | .lineComment => comment
  | .matchWord => controlKeyword
  | .enumWord | .underscore => keyword
  | .ident => identifier
  | .leftParen | .rightParen | .leftBrace | .rightBrace | .comma | .fatArrow => delimiter
  | .blank | .newline => white
  | .unknown | .endOfInput => invalid

/-- The scope under the name editors know. -/
def name : Scope → String
  | comment => "comment"
  | controlKeyword => "keyword.control"
  | keyword => "keyword"
  | identifier => "identifier"
  | delimiter => "delimiter"
  | white => "white"
  | invalid => "invalid"

end Scope

/-- The front of a coloured stretch and its scope. -/
structure Mark where
  startIndex : Nat
  scope : Scope
deriving DecidableEq, Repr

/-- Colours lexemes, the first of which begins at `index`. -/
def marksFrom (index : Nat) : List Lexeme → List Mark
  | [] => []
  | l :: ls => ⟨index, .ofKind l.kind⟩ :: marksFrom (index + Text.unitLength l.text) ls

/-- The coloured stretches of a line. -/
def highlight (line : List Char) : List Mark :=
  marksFrom 0 (Lexeme.scan line)

/-- The coloured stretches of every line of a text. -/
def highlightLines (text : List Char) : List (List Mark) :=
  (Text.splitLines text).map highlight

end MatchCheck.Editor
