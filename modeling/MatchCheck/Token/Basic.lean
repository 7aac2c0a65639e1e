import MatchCheck.Source.Basic
import MatchCheck.Token.Lexeme

/-!
# Tokens

A token is a lexeme with the span it covers. The places come from one walk over the lexemes: a line
break moves to the front of the next line, and any other lexeme, which holds no line end, moves
right by its length. The tokens of a source include its trivia.
-/

namespace MatchCheck

/-- The place behind a lexeme that stands at `p`. -/
def Position.advance (p : Position) (l : Lexeme) : Position :=
  match l.kind with
  | .newline => ⟨p.offset + Text.byteLength l.text, p.line + 1, 1⟩
  | _ => ⟨p.offset + Text.byteLength l.text, p.line, p.column + Text.unitLength l.text⟩

/-- A lexeme at its place in a file. -/
structure Token where
  kind : TokenKind
  text : List Char
  span : Span
deriving DecidableEq, Repr

namespace Token

/-- The text of a token as a name. -/
def name (t : Token) : String :=
  String.ofList t.text

/-- Places lexemes one behind the other, beginning at `p`. -/
def place (file : String) : Position → List Lexeme → List Token
  | _, [] => []
  | p, l :: ls => ⟨l.kind, l.text, file, p, p.advance l⟩ :: place file (p.advance l) ls

@[simp] theorem place_nil (file : String) (p : Position) : place file p [] = [] := rfl

@[simp] theorem place_cons (file : String) (p : Position) (l : Lexeme) (ls : List Lexeme) :
    place file p (l :: ls) =
      ⟨l.kind, l.text, file, p, p.advance l⟩ :: place file (p.advance l) ls :=
  rfl

@[simp] theorem length_place (file : String) (p : Position) (ls : List Lexeme) :
    (place file p ls).length = ls.length := by
  induction ls generalizing p with
  | nil => rfl
  | cons l ls ih => simp [ih]

end Token

namespace Source

/-- The tokens of a source, trivia included. -/
def tokens (source : Source) : List Token :=
  Token.place source.path .first (Lexeme.scan source.text)

/-- The empty span at the end of a source. -/
def endSpan (source : Source) : Span :=
  let stop := (Lexeme.scan source.text).foldl Position.advance .first
  ⟨source.path, stop, stop⟩

/-- The token that stands for the end of a source. -/
def endToken (source : Source) : Token :=
  ⟨.endOfInput, [], source.endSpan⟩

end Source

end MatchCheck
