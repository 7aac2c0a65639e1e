import MatchCheck.Text.Line
import MatchCheck.Token.Kind

/-!
# Lexemes

A lexeme is a piece of text with its kind. `Lexeme.scan` cuts a whole text into lexemes and never
fails: where no rule applies, the character joins a run of kind `unknown`. Each rule takes the
longest stretch it can (`Lexeme.atFront?`), and `scan` goes on behind it, so that the pieces in
order are the text again.
-/

namespace MatchCheck

/-- A piece of text with its lexical class. -/
structure Lexeme where
  kind : TokenKind
  text : List Char
deriving DecidableEq, Repr

namespace Lexeme

/-- Characters that begin a word: ASCII letters and the underscore. -/
def isWordStart (c : Char) : Bool :=
  c.isAlpha || c == '_'

/-- Characters that continue a word: those that begin one, and ASCII digits. -/
def isWordChar (c : Char) : Bool :=
  c.isAlphanum || c == '_'

/-- Blanks inside a line: space, tabulator and the ideographic space. -/
def isBlank (c : Char) : Bool :=
  c == ' ' || c == '\t' || c == '　'

/-- The kind of a word. The keywords are keywords only when they are the whole word. -/
def wordKind (word : List Char) : TokenKind :=
  if word = ['e', 'n', 'u', 'm'] then .enumWord
  else if word = ['m', 'a', 't', 'c', 'h'] then .matchWord
  else if word = ['_'] then .underscore
  else .ident

/-- The lexeme with which a text begins, or nothing where no rule applies. -/
def atFront? : List Char → Option Lexeme
  | [] => none
  | c :: cs =>
    if isWordStart c then
      let word := c :: cs.takeWhile isWordChar
      some ⟨wordKind word, word⟩
    else if isBlank c then
      some ⟨.blank, c :: cs.takeWhile isBlank⟩
    else
      match c, cs with
      | '(', _ => some ⟨.leftParen, ['(']⟩
      | ')', _ => some ⟨.rightParen, [')']⟩
      | '\x7b', _ => some ⟨.leftBrace, ['\x7b']⟩
      | '\x7d', _ => some ⟨.rightBrace, ['\x7d']⟩
      | ',', _ => some ⟨.comma, [',']⟩
      | '=', '>' :: _ => some ⟨.fatArrow, ['=', '>']⟩
      | '/', '/' :: rest => some ⟨.lineComment, '/' :: '/' :: rest.takeWhile (!Text.isLineBreak ·)⟩
      | '\r', '\n' :: _ => some ⟨.newline, ['\r', '\n']⟩
      | '\r', _ => some ⟨.newline, ['\r']⟩
      | '\n', _ => some ⟨.newline, ['\n']⟩
      | _, _ => none

/-- Puts an unrecognized character in front of lexemes: it joins the run that follows directly, or
begins a run of its own. -/
def consUnknown (c : Char) : List Lexeme → List Lexeme
  | ⟨.unknown, text⟩ :: rest => ⟨.unknown, c :: text⟩ :: rest
  | rest => ⟨.unknown, [c]⟩ :: rest

theorem text_ne_nil_of_atFront? {cs : List Char} {l : Lexeme} (h : atFront? cs = some l) :
    l.text ≠ [] := by
  unfold atFront? at h
  split at h
  · simp at h
  · repeat' split at h
    all_goals first
      | (cases h; simp)
      | simp at h

/-- Cuts a text into lexemes. -/
def scan (cs : List Char) : List Lexeme :=
  match cs with
  | [] => []
  | c :: rest =>
    match _h : atFront? (c :: rest) with
    | some l => l :: scan ((c :: rest).drop l.text.length)
    | none => consUnknown c (scan rest)
termination_by cs.length
decreasing_by
  · have := List.length_pos_iff.2 (text_ne_nil_of_atFront? _h)
    simp only [List.length_drop, List.length_cons]
    omega
  · simp

@[simp] theorem scan_nil : scan [] = [] := by
  rw [scan]

end Lexeme

end MatchCheck
