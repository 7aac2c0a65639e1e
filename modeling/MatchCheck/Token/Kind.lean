/-!
# Kinds of tokens

The lexical classes of the language. Words and brackets make up the program; comments, blanks and
line breaks are trivia that the reader of programs passes over; a run of characters that begin no
token is `unknown`. The end of the input counts as a kind so that an error can name it.
-/

namespace MatchCheck

/-- The lexical class of a piece of text. -/
inductive TokenKind where
  | enumWord
  | matchWord
  | underscore
  | ident
  | leftParen
  | rightParen
  | leftBrace
  | rightBrace
  | comma
  | fatArrow
  | lineComment
  | blank
  | newline
  | unknown
  | endOfInput
deriving DecidableEq, Repr, Inhabited

namespace TokenKind

/-- Trivia carries no meaning for the program. -/
def isTrivia : TokenKind → Bool
  | lineComment | blank | newline => true
  | _ => false

/-- The words with a fixed meaning. -/
def isKeyword : TokenKind → Bool
  | enumWord | matchWord | underscore => true
  | _ => false

/-- The keyword that directs control. -/
def isControlKeyword : TokenKind → Bool
  | matchWord => true
  | _ => false

/-- Brackets, the comma and the arrow. -/
def isPunctuation : TokenKind → Bool
  | leftParen | rightParen | leftBrace | rightBrace | comma | fatArrow => true
  | _ => false

/-- The kind in the words of an error message. -/
def describe : TokenKind → String
  | enumWord => "`enum`"
  | matchWord => "`match`"
  | underscore => "`_`"
  | ident => "identifier"
  | leftParen => "`(`"
  | rightParen => "`)`"
  | leftBrace => "`\x7b`"
  | rightBrace => "`\x7d`"
  | comma => "`,`"
  | fatArrow => "`=>`"
  | lineComment => "comment"
  | blank => "whitespace"
  | newline => "line break"
  | unknown => "unrecognized character"
  | endOfInput => "end of input"

end TokenKind

end MatchCheck
