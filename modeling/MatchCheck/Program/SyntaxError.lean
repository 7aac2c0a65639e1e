import MatchCheck.Diagnostic.Basic
import MatchCheck.Program.Basic
import MatchCheck.Token.Basic

/-!
# Syntax errors

What can be wrong with a token sequence, as data: the token that was met, what was wanted in its
place, and the piece the error is about. The wording and the code of each error are given once, by
`SyntaxError.diagnostic`.
-/

namespace MatchCheck

/-- The deepest nesting of argument lists in a pattern or an expression. -/
def maxNesting : Nat := 256

/-- What the grammar wants at some point of a program. -/
inductive Expectation where
  | token (kind : TokenKind)
  | item
  | typeName
  | ctorName
  | fieldType
  | expression
  | pattern
  | separator
deriving DecidableEq, Repr

namespace Expectation

/-- The expectation in the words of an error message. -/
def describe : Expectation → String
  | token kind => kind.describe
  | item => "`enum` or `match`"
  | typeName => "type name"
  | ctorName => "constructor name"
  | fieldType => "field type"
  | expression => "expression"
  | pattern => "pattern"
  | separator => "`,` or `\x7d`"

/-- Whether a closing bracket alone was wanted. -/
def isClosing : Expectation → Bool
  | token .rightBrace | token .rightParen => true
  | _ => false

end Expectation

/-- Why a piece of a program cannot be read. -/
inductive SyntaxError where
  /-- Another token stands where something was wanted. -/
  | unexpected (expected : Expectation) (found : Token)
  /-- The body of an arm, opened at the first span, is not closed before the end of the input. -/
  | unclosedBlock (opening : Span) (stop : Span)
  /-- A constructor lists more fields than one, the others at the given span. -/
  | tooManyFields (ctor : Ident) (extra : Span)
  /-- An argument list is opened inside `maxNesting` others. -/
  | tooDeep (opening : Span)
deriving DecidableEq, Repr

namespace SyntaxError

/-- A token in the words of an error message: names and unknown characters are quoted. -/
def describeFound (t : Token) : String :=
  match t.kind with
  | .ident | .unknown => "`" ++ t.name ++ "`"
  | kind => kind.describe

/-- The code of an unexpected token: the end of the input and a missing closing bracket have codes
of their own. -/
def unexpectedCode (expected : Expectation) (found : Token) : Code :=
  if found.kind = .endOfInput then .unexpectedEnd
  else if expected.isClosing then .missingDelimiter
  else .unexpectedToken

/-- The finding that reports a syntax error. -/
def diagnostic : SyntaxError → Diagnostic
  | unexpected expected found =>
    .error (unexpectedCode expected found)
      ("Expected " ++ expected.describe ++ ", found " ++ describeFound found) found.span
  | unclosedBlock opening stop =>
    (Diagnostic.error .unexpectedEnd "Unexpected end of input: unclosed block" stop).addNote
      "block opened here" (some opening)
  | tooManyFields ctor extra =>
    (Diagnostic.error .tooManyFields
      ("Constructor `" ++ ctor.name ++ "` declares more than one field") extra).addNote
      "constructors carry at most one field" none
  | tooDeep opening =>
    (Diagnostic.error .nestingTooDeep
      ("Constructor arguments nested more than " ++ toString maxNesting ++ " levels deep")
      opening).addNote "match on fewer levels at once and use `_` for the rest" none

end SyntaxError

end MatchCheck
