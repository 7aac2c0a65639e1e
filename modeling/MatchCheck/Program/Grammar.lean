import MatchCheck.Program.Reader

/-!
# The grammar of programs

Readers for the pieces of a program, one for each rule of the grammar:

* an item is a type declaration or a match;
* a declaration is `enum`, a name, and constructors in braces, divided by commas or line breaks;
* a constructor is a name, with a field type in parentheses if it carries a field;
* a match is `match`, an expression, and arms in braces, each with an optional comma behind it;
* an arm is a pattern, an arrow, and a body in braces, of which only the balance of braces matters;
* an expression or a pattern is a name with an optional list of arguments in parentheses, and a
  pattern may also be the underscore.

Argument lists nest at most `maxNesting` deep. The readers of expressions and patterns recurse on
how many lists may still be opened, so the limit is also the reason why they end.

`Program.ofTokens` reads items one after the other. A broken item is reported and reading resumes at
the next token that can begin an item, so that one broken item does not hide the others.
-/

namespace MatchCheck

namespace Reader

variable {α : Type} (stop : Token)

/-! ### Expressions and patterns -/

/-- Elements divided by commas. There is at least one. -/
def commaSeparated (element : Reader α) : Reader (List α) := do
  let first ← element
  let others ← many do
    if ← next stop .comma then
      skip
      return some (← element)
    else
      return none
  return first :: others

/-- The arguments behind a name, and the span at which name and arguments end. Without an opening
parenthesis there are none. -/
def arguments (name : Ident) (inner : Span → Reader (List α)) : Reader (List α × Span) := do
  let opening ← peek stop
  if opening.kind = .leftParen then
    skip
    let args ← inner opening.span
    let close ← token stop .rightParen
    return (args, close.span)
  else
    return ([], name.span)

/-- The inside of an argument list: nothing, or elements divided by commas. -/
def argumentList (element : Reader α) : Reader (List α) := do
  if ← next stop .rightParen then
    return []
  else
    commaSeparated stop element

/-- An expression, the inside of whose argument lists is read by `inner`. -/
def exprWith (inner : Span → Reader (List Expr)) : Reader Expr := do
  let name ← ident stop .expression
  let (args, last) ← arguments stop name inner
  return .apply (name.span.merge last) name args

/-- A pattern, the inside of whose argument lists is read by `inner`. -/
def patternWith (inner : Span → Reader (List Pattern)) : Reader Pattern := do
  let t ← peek stop
  if t.kind = .underscore then
    skip
    return .wildcard t.span
  else
    let name ← ident stop .pattern
    let (args, last) ← arguments stop name inner
    return .ctor (name.span.merge last) name args

/-- An expression in which argument lists nest at most `n` deep. -/
def expr : Nat → Reader Expr
  | 0 => exprWith stop fun opening => fail (.tooDeep opening)
  | n + 1 => exprWith stop fun _ => argumentList stop (expr n)

/-- A pattern in which argument lists nest at most `n` deep. -/
def pattern : Nat → Reader Pattern
  | 0 => patternWith stop fun opening => fail (.tooDeep opening)
  | n + 1 => patternWith stop fun _ => argumentList stop (pattern n)

/-! ### Declarations -/

/-- A field type behind a comma. The closing parenthesis may follow the comma directly. -/
def extraField : Reader (Option Ident) := do
  if ← next stop .comma then
    skip
    if ← next stop .rightParen then
      return none
    else
      return some (← ident stop .fieldType)
  else
    return none

/-- The inside of a constructor's parentheses: the field type, if one is written. Further field
types are read and reported together. -/
def fields (ctor : Ident) : Reader (Option Ident) := do
  let field ←
    if ← next stop .rightParen then pure none
    else some <$> ident stop .fieldType
  match ← many (extraField stop) with
  | [] => return field
  | first :: others =>
    note (.tooManyFields ctor (others.foldl (fun s i => s.merge i.span) first.span))
    return field

/-- The declaration of a constructor. -/
def ctorDecl : Reader CtorDecl := do
  let name ← ident stop .ctorName
  if ← next stop .leftParen then
    skip
    let field ← fields stop name
    let close ← token stop .rightParen
    return ⟨name.span.merge close.span, name, field⟩
  else
    return ⟨name.span, name, none⟩

/-- What divides a constructor from the next: a comma or a line break. In front of the closing brace
nothing is needed. -/
def separator (ctor : CtorDecl) : Reader Unit := do
  let t ← peek stop
  if t.kind = .comma then
    skip
  else if t.kind = .rightBrace || ctor.span.stop.line < t.span.start.line then
    return ()
  else
    fail (.unexpected .separator t)

/-- A constructor and what divides it from the next, unless the closing brace follows. -/
def ctorRound : Reader (Option CtorDecl) := do
  if ← next stop .rightBrace then
    return none
  else
    let ctor ← ctorDecl stop
    separator stop ctor
    return some ctor

/-- The declaration of a type, behind its keyword. -/
def enumDecl (keyword : Span) : Reader EnumDecl := do
  let name ← ident stop .typeName
  let _ ← token stop .leftBrace
  let ctors ← many (ctorRound stop)
  let close ← token stop .rightBrace
  return ⟨keyword.merge close.span, name, ctors⟩

/-! ### Matches -/

/-- The rest of a block inside `depth` further blocks, up to the brace that closes the outermost. -/
def closeBlock (opening : Span) : Nat → List Token → Reply Span
  | _, [] => ⟨[], [], .error (.unclosedBlock opening stop.span)⟩
  | depth, t :: ts =>
    match t.kind, depth with
    | .leftBrace, depth => closeBlock opening (depth + 1) ts
    | .rightBrace, 0 => ⟨[], ts, .ok (opening.merge t.span)⟩
    | .rightBrace, depth + 1 => closeBlock opening depth ts
    | _, depth => closeBlock opening depth ts

theorem rest_closeBlock (opening : Span) (depth : Nat) (ts : List Token) :
    (closeBlock stop opening depth ts).rest <:+ ts := by
  induction ts generalizing depth with
  | nil => exact List.suffix_refl _
  | cons t ts ih =>
    unfold closeBlock
    split
    · exact (ih _).trans (List.suffix_cons t ts)
    · exact List.suffix_cons t ts
    · exact (ih _).trans (List.suffix_cons t ts)
    · exact (ih _).trans (List.suffix_cons t ts)

/-- A block in braces. Its span is all that is kept. -/
def block : Reader Span := do
  let opening ← token stop .leftBrace
  ⟨closeBlock stop opening.span 0, rest_closeBlock stop opening.span 0⟩

/-- An arm of a match. -/
def arm : Reader Arm := do
  let pattern ← pattern stop maxNesting
  let _ ← token stop .fatArrow
  let bodySpan ← block stop
  return ⟨pattern.span.merge bodySpan, pattern, bodySpan⟩

/-- An arm and the comma behind it, unless the closing brace or the end follows. -/
def armRound : Reader (Option Arm) := do
  let t ← peek stop
  if t.kind = .rightBrace || t.kind = .endOfInput then
    return none
  else
    let arm ← arm stop
    if ← next stop .comma then
      skip
    return some arm

/-- A match, behind its keyword. -/
def matchExpr (keyword : Span) : Reader MatchExpr := do
  let scrutinee ← expr stop maxNesting
  let _ ← token stop .leftBrace
  let arms ← many (armRound stop)
  let close ← token stop .rightBrace
  return ⟨keyword.merge close.span, keyword, scrutinee, arms, close.span⟩

/-! ### Items and recovery -/

/-- The item that a token begins, read from what stands behind it. -/
def item (t : Token) : Reader Item :=
  match t.kind with
  | .enumWord => .enumDecl <$> enumDecl stop t.span
  | .matchWord => .matchExpr <$> matchExpr stop t.span
  | _ => fail (.unexpected .item t)

end Reader

/-- Whether a token can begin an item. -/
def Token.beginsItem (t : Token) : Bool :=
  t.kind == .enumWord || t.kind == .matchWord

/-- What is left from the next token on that can begin an item. -/
def resume (ts : List Token) : List Token :=
  ts.dropWhile (!·.beginsItem)

theorem length_resume_le (ts : List Token) : (resume ts).length ≤ ts.length :=
  (List.dropWhile_suffix _).length_le

namespace Program

/-- The items of a token sequence that holds no trivia, and the errors met in it. -/
def itemsFrom (stop : Token) (ts : List Token) : List Item × List SyntaxError :=
  match ts with
  | [] => ([], [])
  | t :: rest =>
    let r := (Reader.item stop t).run rest
    match r.result with
    | .ok item =>
      let (items, errors) := itemsFrom stop r.rest
      (item :: items, r.notes ++ errors)
    | .error e =>
      let (items, errors) := itemsFrom stop (resume r.rest)
      (items, r.notes ++ e :: errors)
termination_by ts.length
decreasing_by
  all_goals
    have := ((Reader.item stop t).rest_suffix rest).length_le
    have := length_resume_le ((Reader.item stop t).run rest).rest
    simp only [List.length_cons]
    omega

/-- The program of a token sequence that holds no trivia, and the errors met in it. The token `stop`
stands for the end of the sequence. -/
def ofTokens (stop : Token) (ts : List Token) : Program × List SyntaxError :=
  let (items, errors) := itemsFrom stop ts
  (⟨items⟩, errors)

end Program

/-- The program of a source, and the errors met in it. -/
def Source.program (source : Source) : Program × List SyntaxError :=
  Program.ofTokens source.endToken (source.tokens.filter (!·.kind.isTrivia))

end MatchCheck
