import Mathlib.Data.List.Infix
import MatchCheck.Proofs.Program.Reader

/-!
# Reading with a counter

The readers of expressions and patterns are told how many argument lists may still be opened. A
parser that is not told can keep one counter for all of them: the counter goes up behind an opening
parenthesis, which is where too deep a nesting is reported, and it goes down behind a closing one.
After an error nobody closes what is still open. The counter then stays as it is, and it is set back
in front of the next item.

This file is such a parser, rule by rule along the grammar. What it does is kept as a `Counted`
reply: besides the reply of a reader it has the value of the counter at every place on the way
(`Moment`). The readers here recurse on a bound that has nothing to do with the counter and may be
as great as one likes.
-/

namespace MatchCheck

/-- A moment of reading: the counter, and the tokens that are left. -/
structure Moment where
  counter : Int
  left : List Token

/-- The outcome of reading with a counter: the moments on the way, the counter at the end, and the
reply. -/
structure Counted (α : Type) where
  moments : List Moment
  counter : Int
  reply : Reply α

namespace Counted

variable {α β : Type}

/-- Nothing is read. -/
def done (a : α) (n : Int) (ts : List Token) : Counted α :=
  ⟨[], n, ⟨[], ts, .ok a⟩⟩

/-- The outcome with another value. -/
def map (f : α → β) (r : Counted α) : Counted β :=
  ⟨r.moments, r.counter, r.reply.notes, r.reply.rest, r.reply.result.map f⟩

/-- Goes on reading behind a success. An error is passed on, with the counter as it is. -/
def andThen (r : Counted α) (f : α → Int → List Token → Counted β) : Counted β :=
  match r.reply.result with
  | .error e => ⟨r.moments, r.counter, r.reply.notes, r.reply.rest, .error e⟩
  | .ok a =>
    let s := f a r.counter r.reply.rest
    ⟨r.moments ++ s.moments, s.counter, r.reply.notes ++ s.reply.notes, s.reply.rest,
      s.reply.result⟩

/-- Both parts only take tokens from the front. -/
theorem rest_andThen {r : Counted α} {f : α → Int → List Token → Counted β} {ts : List Token}
    (h : r.reply.rest <:+ ts)
    (hf : ∀ a, (f a r.counter r.reply.rest).reply.rest <:+ r.reply.rest) :
    (r.andThen f).reply.rest <:+ ts := by
  -- a failure leaves what was left before it
  unfold andThen
  split
  · exact h
  · exact (hf _).trans h

end Counted

/-- A way to read a front part of a token sequence with a counter. -/
structure Counting (α : Type) where
  run : Int → List Token → Counted α
  rest_suffix : ∀ n ts, (run n ts).reply.rest <:+ ts

namespace Counting

variable {α β : Type}

instance : Monad Counting where
  pure a := ⟨Counted.done a, fun _ ts => List.suffix_refl ts⟩
  bind p f :=
    ⟨fun n ts => (p.run n ts).andThen fun a n rest => (f a).run n rest,
      fun n ts => Counted.rest_andThen (p.rest_suffix n ts) fun a => (f a).rest_suffix _ _⟩

/-- Reads without counting. The counter stays the same from where reading begins to its end. -/
def lift (p : Reader α) : Counting α where
  run n ts :=
    let r := p.run ts
    -- every point from the first token to what is left is a moment
    ⟨(ts.tails.filter (r.rest.length ≤ ·.length)).map (⟨n, ·⟩), n, r⟩
  rest_suffix _ ts := p.rest_suffix ts

/-- Passes over an opening parenthesis and counts the list that it opens. -/
def enter (opening : Span) : Counting Unit where
  run n ts :=
    -- counted first and compared with the limit then, so that a refused list counts as well
    ⟨[⟨n, ts⟩, ⟨n + 1, ts.tail⟩], n + 1, [], ts.tail,
      if n + 1 ≤ maxNesting then .ok () else .error (.tooDeep opening)⟩
  rest_suffix _ ts := ts.tail_suffix

/-- Reads a closing parenthesis and counts the list that it closes no longer. -/
def leave (stop : Token) : Counting Token where
  run n ts :=
    let r := (Reader.token stop .rightParen).run ts
    -- where the parenthesis is missing, the list stays open
    match r.result with
    | .ok _ => ⟨[⟨n, ts⟩, ⟨n - 1, r.rest⟩], n - 1, r⟩
    | .error _ => ⟨[⟨n, ts⟩], n, r⟩
  rest_suffix n ts := by
    dsimp only
    split <;> exact (Reader.token stop .rightParen).rest_suffix ts

/-- Repeats a round until one yields nothing. A round that reads no token ends the repetition too.
-/
def manyFrom (round : Counting (Option α)) (n : Int) (ts : List Token) : Counted (List α) :=
  (round.run n ts).andThen fun o n rest =>
    match o with
    | none => .done [] n rest
    | some a =>
      if rest.length < ts.length then (manyFrom round n rest).map (a :: ·) else .done [a] n rest
termination_by ts.length

/-- A repetition leaves a part of the tokens that it was given. -/
theorem rest_manyFrom (round : Counting (Option α)) (n : Int) (ts : List Token) :
    (manyFrom round n ts).reply.rest <:+ ts := by
  induction hlen : ts.length using Nat.strongRecOn generalizing n ts with
  | _ k ih =>
    subst hlen
    -- on the number of tokens, of which every further round has fewer
    rw [manyFrom]
    refine Counted.rest_andThen (round.rest_suffix n ts) fun o => ?_
    split
    · exact List.suffix_refl _
    · split
      · next hlt => exact ih _ hlt _ _ rfl
      · exact List.suffix_refl _

/-- Repeats a round until one yields nothing. -/
def many (round : Counting (Option α)) : Counting (List α) :=
  ⟨manyFrom round, rest_manyFrom round⟩

/-! ### The rules of the grammar -/

section Grammar

variable (stop : Token)

/-- Elements divided by commas. There is at least one. -/
def commaSeparated (element : Counting α) : Counting (List α) := do
  let first ← element
  let others ← many do
    if ← lift (Reader.next stop .comma) then
      lift Reader.skip
      return some (← element)
    else
      return none
  return first :: others

/-- The inside of an argument list: nothing, or elements divided by commas. -/
def argumentList (element : Counting α) : Counting (List α) := do
  if ← lift (Reader.next stop .rightParen) then
    return []
  else
    commaSeparated stop element

/-- The arguments behind a name, and the span at which name and arguments end. -/
def arguments (name : Ident) (inner : Counting (List α)) : Counting (List α × Span) := do
  let opening ← lift (Reader.peek stop)
  if opening.kind = .leftParen then
    enter opening.span
    let args ← inner
    let close ← leave stop
    return (args, close.span)
  else
    return ([], name.span)

/-- An expression, the inside of whose argument lists is read by `inner`. -/
def exprWith (inner : Counting (List Expr)) : Counting Expr := do
  let name ← lift (Reader.ident stop .expression)
  let (args, last) ← arguments stop name inner
  return .apply (name.span.merge last) name args

/-- A pattern, the inside of whose argument lists is read by `inner`. -/
def patternWith (inner : Counting (List Pattern)) : Counting Pattern := do
  let t ← lift (Reader.peek stop)
  if t.kind = .underscore then
    lift Reader.skip
    return .wildcard t.span
  else
    let name ← lift (Reader.ident stop .pattern)
    let (args, last) ← arguments stop name inner
    return .ctor (name.span.merge last) name args

/-- An expression, by a recursion of the given depth. -/
def expr : Nat → Counting Expr
  -- with a bound above the limit, the counter has refused the list before it comes to this
  | 0 => exprWith stop (pure [])
  | bound + 1 => exprWith stop (argumentList stop (expr bound))

/-- A pattern, by a recursion of the given depth. -/
def pattern : Nat → Counting Pattern
  | 0 => patternWith stop (pure [])
  | bound + 1 => patternWith stop (argumentList stop (pattern bound))

variable (bound : Nat)

/-- An arm of a match. -/
def arm : Counting Arm := do
  let pattern ← pattern stop bound
  let _ ← lift (Reader.token stop .fatArrow)
  let bodySpan ← lift (Reader.block stop)
  return ⟨pattern.span.merge bodySpan, pattern, bodySpan⟩

/-- An arm and the comma behind it, unless the closing brace or the end follows. -/
def armRound : Counting (Option Arm) := do
  let t ← lift (Reader.peek stop)
  if t.kind = .rightBrace || t.kind = .endOfInput then
    return none
  else
    let arm ← arm stop bound
    if ← lift (Reader.next stop .comma) then
      lift Reader.skip
    return some arm

/-- A match, behind its keyword. -/
def matchExpr (keyword : Span) : Counting MatchExpr := do
  let scrutinee ← expr stop bound
  let _ ← lift (Reader.token stop .leftBrace)
  let arms ← many (armRound stop bound)
  let close ← lift (Reader.token stop .rightBrace)
  return ⟨keyword.merge close.span, keyword, scrutinee, arms, close.span⟩

/-- The item that a token begins, read from what stands behind it. -/
def item (t : Token) : Counting Item :=
  match t.kind with
  | .enumWord => lift (.enumDecl <$> Reader.enumDecl stop t.span)
  | .matchWord => .matchExpr <$> matchExpr stop bound t.span
  | _ => lift (Reader.fail (.unexpected .item t))

end Grammar

end Counting

/-! ### Rounds -/

/-- The reading of one item: its first token, the tokens behind it, the counter at the start and the
outcome. -/
structure Round where
  first : Token
  behind : List Token
  start : Int
  outcome : Counted Item

namespace Round

/-- The item that was read. -/
def item? (r : Round) : Option Item :=
  r.outcome.reply.result.toOption

/-- The errors that were reported. -/
def errors (r : Round) : List SyntaxError :=
  r.outcome.reply.notes ++
    match r.outcome.reply.result with
    | .ok _ => []
    | .error e => [e]

end Round

/-- Items are read one after the other, with the counter going on from one to the next. After an
error it is set back, and reading resumes at a token that can begin an item. -/
def rounds (stop : Token) (bound : Nat) (n : Int) : List Token → List Round
  | [] => []
  | t :: ts =>
    let r := (Counting.item stop bound t).run n ts
    ⟨t, ts, n, r⟩ ::
      -- an error may leave lists open, which are not part of what is read next
      match r.reply.result with
      | .ok _ => rounds stop bound r.counter r.reply.rest
      | .error _ => rounds stop bound 0 (resume r.reply.rest)
termination_by ts => ts.length
decreasing_by
  all_goals
    have := ((Counting.item stop bound t).rest_suffix n ts).length_le
    have := length_resume_le ((Counting.item stop bound t).run n ts).reply.rest
    simp only [List.length_cons]
    omega

/-- The rounds in which the items of a source are read, from the counter at zero. -/
def Source.rounds (source : Source) (bound : Nat) : List Round :=
  MatchCheck.rounds source.endToken bound 0 (source.tokens.filter (!·.kind.isTrivia))

end MatchCheck
