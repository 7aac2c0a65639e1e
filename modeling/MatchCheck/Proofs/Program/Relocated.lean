import MatchCheck.Proofs.Program.Reader
import MatchCheck.Proofs.Program.Spans

/-!
# Reading relocated tokens

The reader of programs makes the span of a piece by merging the spans of its tokens, and it looks at
a place only to tell whether a token stands on a later line than the constructor in front of it. So
if tokens are put elsewhere in a way that respects merging and lines (`Span.Keeps`), every reader
does the same as before: what it leaves is put elsewhere likewise, and so is what it reads
(`Reader.Moves`).

The token at the end is the exception. It stands for the end of the input and is never a part of
anything that is read, so that it need not be put where the others are: it is enough that it is as
far down in lines (`Token.Moved`). Only errors show where it is. So they are compared by what is
seen of them here and there (`SyntaxError.View`): all but their places if the end is put anywhere
(`Relocates.of_moved`), and everything, with each place put elsewhere, if the end is put where the
other tokens are (`Relocates.of_keeps`).
-/

namespace MatchCheck

/-- Spans that are put elsewhere without disturbing how larger spans are made of them, which of them
begins first and which of them ends on an earlier line than another begins. -/
structure Span.Keeps (g : Span → Span) : Prop where
  merge : ∀ s t, g (s.merge t) = (g s).merge (g t)
  start_le : ∀ s t, (g s).start.offset ≤ (g t).start.offset ↔ s.start.offset ≤ t.start.offset
  line_lt : ∀ s t, (g s).stop.line < (g t).start.line ↔ s.stop.line < t.start.line

/-- Merging many spans respects being put elsewhere, as merging two does. -/
theorem Span.Keeps.foldl_merge {g : Span → Span} (hg : Keeps g) (s : Span) (is : List Ident) :
    (is.map (Ident.move g)).foldl (fun s i => s.merge i.span) (g s) =
      g (is.foldl (fun s i => s.merge i.span) s) := by
  induction is generalizing s with
  | nil => rfl
  | cons i is ih =>
    rw [List.map_cons, List.foldl_cons, List.foldl_cons, ← ih, hg.merge]
    rfl

/-- A token at another place. -/
def Token.move (g : Span → Span) (t : Token) : Token :=
  ⟨t.kind, t.text, g t.span⟩

/-- The second token stands in for the first one where spans are put elsewhere by `g`. -/
structure Token.Moved (g : Span → Span) (t t' : Token) : Prop where
  kind : t'.kind = t.kind
  text : t'.text = t.text
  span : t.kind ≠ .endOfInput → t'.span = g t.span
  line_lt : ∀ s, (g s).stop.line < t'.span.start.line ↔ s.stop.line < t.span.start.line

/-- A token that is put elsewhere stands in for itself. -/
theorem Token.moved_move {g : Span → Span} (hg : Span.Keeps g) (t : Token) :
    t.Moved g (t.move g) where
  kind := rfl
  text := rfl
  span _ := rfl
  line_lt s := hg.line_lt s t.span

namespace SyntaxError

/-- What is reported of an error, without places. -/
def erase (e : SyntaxError) : Diagnostic :=
  e.diagnostic.erase

/-- A token that is not expected is described by its kind and its text. -/
theorem erase_unexpected {g : Span → Span} {t t' : Token} (ht : t.Moved g t')
    (expected : Expectation) : (unexpected expected t').erase = (unexpected expected t).erase := by
  simp only [erase, diagnostic, unexpectedCode, describeFound, Token.name, ht.kind, ht.text]
  rfl

/-- What is compared of errors: how an error is seen here, and how one is seen there. -/
structure View where
  here : SyntaxError → Diagnostic
  there : SyntaxError → Diagnostic

/-- The outcomes of reading at two places. -/
inductive Moved {α β : Type} (v : View) (φ : α → β) :
    Except SyntaxError α → Except SyntaxError β → Prop
  | ok (a : α) : Moved v φ (.ok a) (.ok (φ a))
  | error {e e' : SyntaxError} (h : v.there e' = v.here e) : Moved v φ (.error e) (.error e')

variable {v : View}

/-- What is read at the one place is read at the other. -/
theorem Moved.of_ok {α β : Type} {φ : α → β} {a : α} {r : Except SyntaxError β}
    (h : Moved v φ (.ok a) r) : r = .ok (φ a) := by
  cases h
  rfl

/-- What fails at the one place fails at the other, for a reason that is seen alike. -/
theorem Moved.of_error {α β : Type} {φ : α → β} {e : SyntaxError} {r : Except SyntaxError β}
    (h : Moved v φ (.error e) r) : ∃ e', r = .error e' ∧ v.there e' = v.here e := by
  cases h with
  | error h => exact ⟨_, rfl, h⟩

end SyntaxError

/-- **Spans are put elsewhere**, the end included, and the errors that reading can meet are seen
there as they are seen here. -/
structure Relocates (g : Span → Span) (v : SyntaxError.View) (stop stop' : Token) : Prop where
  keeps : Span.Keeps g
  moved : stop.Moved g stop'
  unexpected : ∀ expected t,
    v.there (.unexpected expected (t.move g)) = v.here (.unexpected expected t)
  unexpected_stop : ∀ expected,
    v.there (.unexpected expected stop') = v.here (.unexpected expected stop)
  unclosedBlock : ∀ opening,
    v.there (.unclosedBlock (g opening) stop'.span) = v.here (.unclosedBlock opening stop.span)
  tooManyFields : ∀ ctor extra,
    v.there (.tooManyFields (ctor.move g) (g extra)) = v.here (.tooManyFields ctor extra)
  tooDeep : ∀ opening, v.there (.tooDeep (g opening)) = v.here (.tooDeep opening)

/-- Wherever the end is put, all but the places of errors stays. -/
theorem Relocates.of_moved {g : Span → Span} {stop stop' : Token} (hg : Span.Keeps g)
    (hs : stop.Moved g stop') : Relocates g ⟨SyntaxError.erase, SyntaxError.erase⟩ stop stop' where
  keeps := hg
  moved := hs
  unexpected expected t := SyntaxError.erase_unexpected (t.moved_move hg) expected
  unexpected_stop expected := SyntaxError.erase_unexpected hs expected
  unclosedBlock _ := rfl
  tooManyFields _ _ := rfl
  tooDeep _ := rfl

/-- If the end is put where the other tokens are, errors are put there as well. -/
theorem Relocates.of_keeps {g : Span → Span} (hg : Span.Keeps g) (stop : Token) :
    Relocates g ⟨fun e => e.diagnostic.relocate g, SyntaxError.diagnostic⟩ stop
      (stop.move g) where
  keeps := hg
  moved := stop.moved_move hg
  unexpected _ _ := rfl
  unexpected_stop _ := rfl
  unclosedBlock _ := rfl
  tooManyFields _ _ := rfl
  tooDeep _ := rfl

/-- Replies at two places. -/
structure Reply.Moved {α β : Type} (g : Span → Span) (v : SyntaxError.View) (φ : α → β)
    (r : Reply α) (r' : Reply β) : Prop where
  notes : r'.notes.map v.there = r.notes.map v.here
  rest : r'.rest = r.rest.map (Token.move g)
  result : SyntaxError.Moved v φ r.result r'.result

/-- One reply behind the other, at both places. -/
theorem Reply.Moved.andThen {α β γ δ : Type} {g : Span → Span} {v : SyntaxError.View} {φ : α → β}
    {ψ : γ → δ} {r : Reply α} {r' : Reply β} {f : α → List Token → Reply γ}
    {f' : β → List Token → Reply δ} (h : r.Moved g v φ r')
    (hf : ∀ a, (f a r.rest).Moved g v ψ (f' (φ a) (r.rest.map (Token.move g)))) :
    (r.andThen f).Moved g v ψ (r'.andThen f') := by
  obtain ⟨hnotes, hrest, hresult⟩ := h
  cases hr : r.result with
  | error e =>
    rw [hr] at hresult
    obtain ⟨e', hr', hseen⟩ := hresult.of_error
    rw [Reply.andThen_of_error hr, Reply.andThen_of_error hr']
    exact ⟨hnotes, hrest, .error hseen⟩
  | ok a =>
    rw [hr] at hresult
    -- the second reader starts at both places with what the first one left there
    obtain ⟨hnotes', hrest', hresult'⟩ := hf a
    rw [Reply.andThen_of_ok hr, Reply.andThen_of_ok hresult.of_ok, hrest]
    refine ⟨?_, hrest', hresult'⟩
    rw [List.map_append, List.map_append, hnotes, hnotes']

namespace Reader

variable {α β γ δ : Type} {g : Span → Span} {v : SyntaxError.View}
  {φ : α → β} {ψ : γ → δ}

/-- On tokens that are put elsewhere the second reader does what the first one does on them where
they are, and what it reads is given by `φ`. -/
def Moves (g : Span → Span) (v : SyntaxError.View) (φ : α → β) (p : Reader α) (q : Reader β) :
    Prop :=
  ∀ ts, (p.run ts).Moved g v φ (q.run (ts.map (Token.move g)))

namespace Moves

theorem pure (a : α) : Moves g v φ (Pure.pure a) (Pure.pure (φ a)) :=
  fun _ => ⟨rfl, rfl, .ok a⟩

theorem of_eq {a : α} {b : β} (h : φ a = b) : Moves g v φ (Pure.pure a) (Pure.pure b) :=
  h ▸ pure a

theorem fail {e e' : SyntaxError} (h : v.there e' = v.here e) :
    Moves g v φ (Reader.fail e) (Reader.fail e') :=
  fun _ => ⟨rfl, rfl, .error h⟩

theorem note {e e' : SyntaxError} (h : v.there e' = v.here e) :
    Moves g v id (Reader.note e) (Reader.note e') :=
  fun _ => ⟨congrArg ([·]) h, rfl, .ok ()⟩

theorem skip : Moves g v id Reader.skip Reader.skip :=
  fun _ => ⟨rfl, List.map_tail.symm, .ok ()⟩

/-- **Sequencing.** -/
theorem bind {p : Reader α} {q : Reader β} {f : α → Reader γ} {f' : β → Reader δ}
    (hp : Moves g v φ p q) (hf : ∀ a, Moves g v ψ (f a) (f' (φ a))) :
    Moves g v ψ (p >>= f) (q >>= f') :=
  fun ts => (hp ts).andThen fun a => hf a _

/-- **Repetition.** A round moves on at both places or at none. -/
theorem many {round : Reader (Option α)} {round' : Reader (Option β)}
    (h : Moves g v (Option.map φ) round round') :
    Moves g v (List.map φ) (Reader.many round) (Reader.many round') := by
  refine manyFrom_induction (M := fun ts r => r.Moved g v (List.map φ)
    (manyFrom round' (ts.map (Token.move g)))) round fun ts ih => ?_
  rw [manyFrom_eq_andThen round']
  refine (h ts).andThen fun o => ?_
  cases o with
  | none => exact ⟨rfl, rfl, .ok []⟩
  | some a =>
    -- as many tokens are left at both places, so both go on or neither
    rw [Option.map_some, furtherRounds, furtherRounds, List.length_map, List.length_map]
    split
    · next hlt =>
      rw [Reply.map_eq_andThen, Reply.map_eq_andThen]
      exact (ih _ hlt).andThen fun as => ⟨rfl, rfl, .ok (a :: as)⟩
    · exact ⟨rfl, rfl, .ok [a]⟩

end Moves

/-! ### Looking at the next token -/

section Grammar

variable {stop stop' : Token} (hr : Relocates g v stop stop')
include hr

/-- What is decided about the next token is decided about the token that stands in for it. -/
theorem Moves.peek {f : Token → Reader α} {f' : Token → Reader β}
    (hf : ∀ t t', t.Moved g t' →
      (∀ expected, v.there (.unexpected expected t') = v.here (.unexpected expected t)) →
        Moves g v φ (f t) (f' t')) :
    Moves g v φ (Reader.peek stop >>= f) (Reader.peek stop' >>= f') := by
  intro ts
  -- at the end of the text the token that is seen is the end itself, on both sides
  cases ts with
  | nil => exact hf stop stop' hr.moved hr.unexpected_stop []
  | cons t ts =>
    exact hf t (t.move g) (t.moved_move hr.keeps) (hr.unexpected · t) (t :: ts)

/-- The kind of the next token is the same at both places. -/
theorem Moves.next (kind : TokenKind) :
    Moves g v id (Reader.next stop kind) (Reader.next stop' kind) := by
  refine Moves.peek hr fun t t' ht hseen => Moves.of_eq ?_
  show (t.kind == kind) = (t'.kind == kind)
  rw [ht.kind]

/-- A branch on the kind of the next token, which is passed over in the first case. -/
theorem Moves.ifNext (kind : TokenKind) {p p' : Reader α} {q q' : Reader β}
    (hp : Moves g v φ p q) (hp' : Moves g v φ p' q') :
    Moves g v φ
      (Reader.next stop kind >>= fun b => if b = true then Reader.skip >>= fun _ => p else p')
      (Reader.next stop' kind >>= fun b =>
        if b = true then Reader.skip >>= fun _ => q else q') := by
  refine (Moves.next hr kind).bind fun b => ?_
  cases b with
  | true => exact Moves.skip.bind fun _ => hp
  | false => exact hp'

/-- **An expected token** is read where it was put. The end is never expected, so it need not have
been put there. -/
theorem Moves.expect {kind : TokenKind} (hkind : kind ≠ .endOfInput) (expected : Expectation) :
    Moves g v (Token.move g) (Reader.expect stop kind expected)
      (Reader.expect stop' kind expected) := by
  refine Moves.peek hr fun t t' ht hseen => ?_
  simp only [ht.kind]
  split
  · next h =>
    -- not the end, so that its span is known too
    have ht' : t' = t.move g := by
      obtain ⟨k, text, span⟩ := t'
      obtain ⟨rfl, rfl, hspan, -⟩ := ht
      exact congrArg (Token.mk t.kind t.text) (hspan (h ▸ hkind))
    rw [ht']
    exact Moves.skip.bind fun _ => Moves.pure t
  · exact Moves.fail (hseen expected)

/-! ### The readers of the grammar -/

theorem moves_token {kind : TokenKind} (hkind : kind ≠ .endOfInput) :
    Moves g v (Token.move g) (token stop kind) (token stop' kind) :=
  Moves.expect hr hkind _

theorem moves_ident (expected : Expectation) :
    Moves g v (Ident.move g) (ident stop expected) (ident stop' expected) :=
  (Moves.expect hr (by decide) expected).bind fun t => Moves.pure (Ident.mk t.name t.span)

theorem moves_commaSeparated {p : Reader α} {q : Reader β} (h : Moves g v φ p q) :
    Moves g v (List.map φ) (commaSeparated stop p) (commaSeparated stop' q) := by
  refine h.bind fun a => (Moves.many (φ := φ) ?_).bind fun as => Moves.pure (a :: as)
  exact Moves.ifNext hr _ (h.bind fun a => Moves.pure (some a)) (Moves.pure none)

theorem moves_argumentList {p : Reader α} {q : Reader β} (h : Moves g v φ p q) :
    Moves g v (List.map φ) (argumentList stop p) (argumentList stop' q) := by
  refine (Moves.next hr _).bind fun b => ?_
  cases b with
  | true => exact Moves.pure []
  | false => exact moves_commaSeparated hr h

/-- The inner reader is given the opening parenthesis, which was put elsewhere too. -/
theorem moves_arguments (name : Ident) {inner : Span → Reader (List α)}
    {inner' : Span → Reader (List β)} (h : ∀ s, Moves g v (List.map φ) (inner s) (inner' (g s))) :
    Moves g v (Prod.map (List.map φ) g) (arguments stop name inner)
      (arguments stop' (name.move g) inner') := by
  refine Moves.peek hr fun t t' ht hseen => ?_
  simp only [ht.kind]
  split
  · next hkind =>
    -- a parenthesis is not the end
    rw [ht.span (by rw [hkind]; decide)]
    refine Moves.skip.bind fun _ => (h t.span).bind fun args => ?_
    exact (moves_token hr (by decide)).bind fun close => Moves.pure (args, close.span)
  · exact Moves.pure ([], name.span)

/-- The span of an expression is merged from spans that were put elsewhere. -/
theorem moves_exprWith {inner inner' : Span → Reader (List Expr)}
    (h : ∀ s, Moves g v (List.map (Expr.relocate g g)) (inner s) (inner' (g s))) :
    Moves g v (Expr.relocate g g) (exprWith stop inner) (exprWith stop' inner') := by
  refine (moves_ident hr _).bind fun name => (moves_arguments hr name h).bind ?_
  rintro ⟨args, last⟩
  have hspan : (Expr.apply (name.span.merge last) name args).relocate g g =
      .apply ((g name.span).merge (g last)) (name.move g) (args.map (Expr.relocate g g)) := by
    rw [Expr.relocate, hr.keeps.merge, Expr.relocateAll_eq_map]
  exact Moves.of_eq hspan

/-- So is that of a pattern. An underscore has the span of its token. -/
theorem moves_patternWith {inner inner' : Span → Reader (List Pattern)}
    (h : ∀ s, Moves g v (List.map (Pattern.relocate g g)) (inner s) (inner' (g s))) :
    Moves g v (Pattern.relocate g g) (patternWith stop inner) (patternWith stop' inner') := by
  refine Moves.peek hr fun t t' ht hseen => ?_
  simp only [ht.kind]
  split
  · next hkind =>
    -- an underscore is a token of the text, and not its end
    rw [ht.span (by rw [hkind]; decide)]
    exact Moves.skip.bind fun _ => Moves.pure (Pattern.wildcard t.span)
  · refine (moves_ident hr _).bind fun name => (moves_arguments hr name h).bind ?_
    rintro ⟨args, last⟩
    -- merging and moving can be done in either order
    have hspan : (Pattern.ctor (name.span.merge last) name args).relocate g g =
        .ctor ((g name.span).merge (g last)) (name.move g) (args.map (Pattern.relocate g g)) := by
      rw [Pattern.relocate, hr.keeps.merge, Pattern.relocateAll_eq_map]
    exact Moves.of_eq hspan

/-- Expressions are read where their tokens were put, whatever depth is left. -/
theorem moves_expr (n : Nat) : Moves g v (Expr.relocate g g) (expr stop n) (expr stop' n) := by
  induction n with
  -- the only error that is made of a span alone
  | zero => exact moves_exprWith hr fun opening => Moves.fail (hr.tooDeep opening)
  | succ n ih => exact moves_exprWith hr fun _ => moves_argumentList hr ih

theorem moves_pattern (n : Nat) :
    Moves g v (Pattern.relocate g g) (pattern stop n) (pattern stop' n) := by
  induction n with
  | zero => exact moves_patternWith hr fun opening => Moves.fail (hr.tooDeep opening)
  | succ n ih => exact moves_patternWith hr fun _ => moves_argumentList hr ih

/-! Declarations -/

/-- A further field is read where its name was put. -/
theorem moves_extraField :
    Moves g v (Option.map (Ident.move g)) (extraField stop) (extraField stop') := by
  refine Moves.ifNext hr _ ((Moves.next hr _).bind fun b => ?_) (Moves.pure none)
  cases b with
  | true => exact Moves.pure none
  | false => exact (moves_ident hr _).bind fun i => Moves.pure (some i)

/-- Further fields are reported by the name of their constructor. -/
theorem moves_extraFields (ctor : Ident) (field : Option Ident) :
    Moves g v (Option.map (Ident.move g)) (extraFields stop ctor field)
      (extraFields stop' (ctor.move g) (field.map (Ident.move g))) := by
  refine (moves_extraField hr).many.bind fun extra => ?_
  cases extra with
  | nil => exact Moves.pure field
  | cons first others =>
    refine Moves.bind (φ := id) (Moves.note ?_) fun _ => Moves.pure field
    -- the error is at the merged span of the names, which was put elsewhere as a whole
    rw [← hr.tooManyFields, ← hr.keeps.foldl_merge]
    rfl

/-- The fields of a constructor are read where they were put. -/
theorem moves_fields (ctor : Ident) :
    Moves g v (Option.map (Ident.move g)) (fields stop ctor) (fields stop' (ctor.move g)) := by
  refine (Moves.next hr _).bind fun b => ?_
  cases b with
  | true => exact (Moves.pure none).bind (moves_extraFields hr ctor)
  | false =>
    exact ((moves_ident hr _).bind fun i => Moves.pure (some i)).bind
      (moves_extraFields hr ctor)

/-- A constructor is read where it was put. -/
theorem moves_ctorDecl : Moves g v (CtorDecl.relocate g g) (ctorDecl stop) (ctorDecl stop') := by
  refine (moves_ident hr _).bind fun name => Moves.ifNext hr _ ?_ (Moves.pure _)
  refine (moves_fields hr name).bind fun field => ?_
  refine (moves_token hr (by decide)).bind fun close => ?_
  have hspan : CtorDecl.relocate g g ⟨name.span.merge close.span, name, field⟩ =
      ⟨(g name.span).merge (g close.span), name.move g, field.map (Ident.move g)⟩ := by
    rw [CtorDecl.relocate, hr.keeps.merge]
  exact Moves.of_eq hspan

/-- The one place where lines are compared. -/
theorem moves_separator (ctor : CtorDecl) :
    Moves g v id (separator stop ctor) (separator stop' (ctor.relocate g g)) := by
  refine Moves.peek hr fun t t' ht hseen => ?_
  -- whether the next token is on another line does not change
  simp only [ht.kind, CtorDecl.relocate, ht.line_lt]
  split
  · exact Moves.skip
  · split
    · exact Moves.pure ()
    · exact Moves.fail (hseen _)

/-- A round of constructors goes on at both places or at none. -/
theorem moves_ctorRound :
    Moves g v (Option.map (CtorDecl.relocate g g)) (ctorRound stop) (ctorRound stop') := by
  refine (Moves.next hr _).bind fun b => ?_
  cases b with
  | true => exact Moves.pure none
  | false =>
    exact (moves_ctorDecl hr).bind fun ctor =>
      (moves_separator hr ctor).bind fun _ => Moves.pure (some ctor)

/-- A declaration is read where it was put, from its keyword on. -/
theorem moves_enumDecl (keyword : Span) :
    Moves g v (EnumDecl.relocate g g) (enumDecl stop keyword) (enumDecl stop' (g keyword)) := by
  refine (moves_ident hr _).bind fun name => ?_
  refine (moves_token hr (by decide)).bind fun _ => ?_
  refine (moves_ctorRound hr).many.bind fun ctors => ?_
  refine (moves_token hr (by decide)).bind fun close => ?_
  -- merging and moving can be done in either order
  have hspan : EnumDecl.relocate g g ⟨keyword.merge close.span, name, ctors⟩ =
      ⟨(g keyword).merge (g close.span), name.move g, ctors.map (CtorDecl.relocate g g)⟩ := by
    rw [EnumDecl.relocate, hr.keeps.merge]
  exact Moves.of_eq hspan

/-! Matches -/

/-- The end of a block is found at the same token. -/
theorem moved_closeBlock (opening : Span) (depth : Nat) (ts : List Token) :
    (closeBlock stop opening depth ts).Moved g v g
      (closeBlock stop' (g opening) depth (ts.map (Token.move g))) := by
  -- the depth is the same at both places all along, since only kinds are counted
  induction ts generalizing depth with
  | nil => exact ⟨rfl, rfl, .error (hr.unclosedBlock opening)⟩
  | cons t ts ih =>
    rw [List.map_cons]
    unfold closeBlock
    simp only [Token.move]
    split
    · exact ih _
    · exact ⟨rfl, rfl, hr.keeps.merge opening t.span ▸ .ok (opening.merge t.span)⟩
    · exact ih _
    · exact ih _

theorem moves_block : Moves g v g (block stop) (block stop') :=
  (moves_token hr (by decide)).bind fun opening ts => moved_closeBlock hr opening.span 0 ts

/-- An arm is read where it was put. -/
theorem moves_arm : Moves g v (Arm.relocate g g) (arm stop) (arm stop') := by
  refine (moves_pattern hr maxNesting).bind fun pattern => ?_
  refine (moves_token hr (by decide)).bind fun _ => (moves_block hr).bind fun body => ?_
  -- its span is merged from the pattern's and the body's
  have hspan : Arm.relocate g g ⟨pattern.span.merge body, pattern, body⟩ =
      ⟨(pattern.relocate g g).span.merge (g body), pattern.relocate g g, g body⟩ := by
    rw [Arm.relocate, hr.keeps.merge, Pattern.span_relocate]
  exact Moves.of_eq hspan

/-- A round of arms goes on at both places or at none. -/
theorem moves_armRound :
    Moves g v (Option.map (Arm.relocate g g)) (armRound stop) (armRound stop') := by
  refine Moves.peek hr fun t t' ht hseen => ?_
  simp only [ht.kind]
  -- no arm begins with a closing brace or at the end
  split
  · exact Moves.pure none
  · exact (moves_arm hr).bind fun arm =>
      Moves.ifNext hr _ (Moves.pure (some arm)) (Moves.pure (some arm))

/-- A match is read where it was put, from its keyword on. -/
theorem moves_matchExpr (keyword : Span) :
    Moves g v (MatchExpr.relocate g g) (matchExpr stop keyword) (matchExpr stop' (g keyword)) := by
  refine (moves_expr hr maxNesting).bind fun scrutinee => ?_
  refine (moves_token hr (by decide)).bind fun _ => ?_
  refine (moves_armRound hr).many.bind fun arms => ?_
  refine (moves_token hr (by decide)).bind fun close => ?_
  -- only the span of the whole is merged, from the keyword and the brace
  have hspan : MatchExpr.relocate g g
      ⟨keyword.merge close.span, keyword, scrutinee, arms, close.span⟩ =
        ⟨(g keyword).merge (g close.span), g keyword, scrutinee.relocate g g,
          arms.map (Arm.relocate g g), g close.span⟩ := by
    rw [MatchExpr.relocate, hr.keeps.merge]
  exact Moves.of_eq hspan

/-- **An item is read alike wherever its tokens stand.** -/
theorem moves_item (t : Token) :
    Moves g v (Item.relocate g g) (item stop t) (item stop' (t.move g)) := by
  -- an item is told by its first token, whose kind stays the same
  unfold item
  simp only [Token.move]
  split
  · exact (moves_enumDecl hr t.span).bind fun d => Moves.pure (Item.enumDecl d)
  · exact (moves_matchExpr hr t.span).bind fun m => Moves.pure (Item.matchExpr m)
  · exact Moves.fail (hr.unexpected _ t)

end Grammar

end Reader

/-! ### Whole programs -/

/-- Where reading goes on after an error depends on kinds only. -/
theorem resume_map_move (g : Span → Span) (ts : List Token) :
    resume (ts.map (Token.move g)) = (resume ts).map (Token.move g) :=
  List.dropWhile_map

namespace Program

variable {g : Span → Span} {v : SyntaxError.View} {stop stop' : Token}

/-- **Reading relocated tokens** yields the relocated items, and errors that are seen alike. -/
theorem itemsFrom_relocates (h : Relocates g v stop stop') (ts : List Token) :
    (itemsFrom stop' (ts.map (Token.move g))).1 =
        (itemsFrom stop ts).1.map (Item.relocate g g) ∧
      (itemsFrom stop' (ts.map (Token.move g))).2.map v.there =
        (itemsFrom stop ts).2.map v.here := by
  -- along the items of the tokens where they are, which the others follow
  induction ts using items_induction stop with
  | nil =>
    rw [List.map_nil, itemsFrom, itemsFrom]
    exact ⟨rfl, rfl⟩
  | ok t ts item hr ih =>
    obtain ⟨hnotes, hrest, hresult⟩ := Reader.moves_item h t ts
    rw [hr] at hresult
    obtain ⟨hitems, herrors⟩ := ih
    rw [List.map_cons, itemsFrom_of_ok hr, itemsFrom_of_ok hresult.of_ok, hrest]
    refine ⟨congrArg (_ :: ·) hitems, ?_⟩
    rw [List.map_append, List.map_append, hnotes, herrors]
  | error t ts e hr ih =>
    obtain ⟨hnotes, hrest, hresult⟩ := Reader.moves_item h t ts
    rw [hr] at hresult
    obtain ⟨e', hr', hseen⟩ := hresult.of_error
    obtain ⟨hitems, herrors⟩ := ih
    rw [List.map_cons, itemsFrom_of_error hr, itemsFrom_of_error hr', hrest, resume_map_move]
    refine ⟨hitems, ?_⟩
    rw [List.map_append, List.map_append, hnotes, List.map_cons, List.map_cons, hseen, herrors]

/-- Wherever the end is put, the errors are reported alike. -/
theorem itemsFrom_map_move (hg : Span.Keeps g) (hs : stop.Moved g stop') (ts : List Token) :
    (itemsFrom stop' (ts.map (Token.move g))).1 =
        (itemsFrom stop ts).1.map (Item.relocate g g) ∧
      (itemsFrom stop' (ts.map (Token.move g))).2.map SyntaxError.erase =
        (itemsFrom stop ts).2.map SyntaxError.erase :=
  itemsFrom_relocates (Relocates.of_moved hg hs) ts

end Program

end MatchCheck
