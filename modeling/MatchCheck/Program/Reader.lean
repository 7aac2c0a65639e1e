import MatchCheck.Program.SyntaxError

/-!
# Reading token sequences

A `Reader` consumes a front part of a token sequence. Its reply says what is left, which errors were
noted on the way without stopping, and either the value read or the error that stopped it. The rest
is given in both cases, because after an error reading goes on behind the broken piece.

A reader never invents tokens: what is left is a suffix of what it was given. This is part of the
type, so that sequencing keeps it without further proof, and it is what makes repetition and the
recovery after errors end.
-/

namespace MatchCheck

/-- The outcome of reading: the errors noted on the way, the tokens that are left, and the value or
the error that stopped the reading. -/
structure Reply (α : Type) where
  notes : List SyntaxError
  rest : List Token
  result : Except SyntaxError α

namespace Reply

variable {α β : Type}

/-- Goes on reading behind a success. An error is passed on. -/
def andThen (r : Reply α) (f : α → List Token → Reply β) : Reply β :=
  match r.result with
  | .error e => ⟨r.notes, r.rest, .error e⟩
  | .ok a =>
    let s := f a r.rest
    ⟨r.notes ++ s.notes, s.rest, s.result⟩

theorem rest_andThen {r : Reply α} {f : α → List Token → Reply β}
    (h : ∀ a, (f a r.rest).rest <:+ r.rest) : (r.andThen f).rest <:+ r.rest := by
  unfold andThen
  split
  · exact List.suffix_refl _
  · exact h _

end Reply

/-- A way to read a front part of a token sequence. -/
structure Reader (α : Type) where
  run : List Token → Reply α
  rest_suffix : ∀ ts, (run ts).rest <:+ ts

namespace Reader

variable {α β : Type}

instance : Monad Reader where
  pure a := ⟨fun ts => ⟨[], ts, .ok a⟩, fun ts => List.suffix_refl ts⟩
  bind p f :=
    ⟨fun ts => (p.run ts).andThen fun a rest => (f a).run rest,
      fun ts => (Reply.rest_andThen fun a => (f a).rest_suffix _).trans (p.rest_suffix ts)⟩

@[simp] theorem run_pure (a : α) (ts : List Token) :
    (pure a : Reader α).run ts = ⟨[], ts, .ok a⟩ := rfl

@[simp] theorem run_bind (p : Reader α) (f : α → Reader β) (ts : List Token) :
    (p >>= f).run ts = (p.run ts).andThen fun a rest => (f a).run rest := rfl

/-- Stops with an error. -/
def fail (e : SyntaxError) : Reader α :=
  ⟨fun ts => ⟨[], ts, .error e⟩, fun ts => List.suffix_refl ts⟩

/-- Notes an error and goes on. -/
def note (e : SyntaxError) : Reader Unit :=
  ⟨fun ts => ⟨[e], ts, .ok ()⟩, fun ts => List.suffix_refl ts⟩

/-- The next token, which stays. At the end it is `stop`. -/
def peek (stop : Token) : Reader Token :=
  ⟨fun ts => ⟨[], ts, .ok (ts.headD stop)⟩, fun ts => List.suffix_refl ts⟩

/-- Passes over the next token. -/
def skip : Reader Unit :=
  ⟨fun ts => ⟨[], ts.tail, .ok ()⟩, fun ts => List.tail_suffix ts⟩

/-- Whether the next token is of the given kind. -/
def next (stop : Token) (kind : TokenKind) : Reader Bool := do
  return (← peek stop).kind == kind

/-- Reads a token of the given kind, or stops with the error that something was expected. -/
def expect (stop : Token) (kind : TokenKind) (expected : Expectation) : Reader Token := do
  let t ← peek stop
  if t.kind = kind then
    skip
    return t
  else
    fail (.unexpected expected t)

/-- Reads a token that the grammar asks for by its kind. -/
def token (stop : Token) (kind : TokenKind) : Reader Token :=
  expect stop kind (.token kind)

/-- Reads a name. -/
def ident (stop : Token) (expected : Expectation) : Reader Ident := do
  let t ← expect stop .ident expected
  return ⟨t.name, t.span⟩

/-- Repeats a round until one yields nothing. A round that reads no token ends the repetition too.
-/
def manyFrom (round : Reader (Option α)) (ts : List Token) : Reply (List α) :=
  let r := round.run ts
  match r.result with
  | .error e => ⟨r.notes, r.rest, .error e⟩
  | .ok none => ⟨r.notes, r.rest, .ok []⟩
  | .ok (some a) =>
    if r.rest.length < ts.length then
      let s := manyFrom round r.rest
      ⟨r.notes ++ s.notes, s.rest, s.result.map (a :: ·)⟩
    else
      ⟨r.notes, r.rest, .ok [a]⟩
termination_by ts.length

theorem rest_manyFrom (round : Reader (Option α)) (ts : List Token) :
    (manyFrom round ts).rest <:+ ts := by
  fun_induction manyFrom round ts with
  | case1 ts r e h => exact round.rest_suffix ts
  | case2 ts r h => exact round.rest_suffix ts
  | case3 ts r a h hlt s ih => exact ih.trans (round.rest_suffix ts)
  | case4 ts r a h hlt => exact round.rest_suffix ts

/-- Repeats a round until one yields nothing. -/
def many (round : Reader (Option α)) : Reader (List α) :=
  ⟨manyFrom round, rest_manyFrom round⟩

end Reader

end MatchCheck
