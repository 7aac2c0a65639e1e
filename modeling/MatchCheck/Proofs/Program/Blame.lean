import MatchCheck.Proofs.Program.Extent

/-!
# What is reported is at tokens

All that a reader reports is of some sort, if all errors are that it can make of tokens at spans of
some kind (`Reader.ErrorSort`). The judgement `Reader.Blames` says so, of what is reported on the
way and at the end. What the readers read is known to be at spans of the kind already
(`Reader.gives_all_item`).

An error is reported at a token, at the end, or at a span that is merged from spans of tokens. So if
the tokens and the end are at spans of one kind, and merging stays within the kind, then everything
that an error is reported at is of this kind (`Program.within_errors`).

Together with the findings about a program that was read, which are at spans of the program, this
says where the findings about a source are (`Source.forall_spans_of_tokens`).
-/

namespace MatchCheck

/-- Everything that an error is reported at is of one kind. -/
def SyntaxError.Within (G : Span → Prop) (e : SyntaxError) : Prop :=
  ∀ s ∈ e.diagnostic.spans, G s

namespace SyntaxError

variable {G : Span → Prop}

theorem within_unexpected (expected : Expectation) {t : Token} (h : G t.span) :
    (unexpected expected t).Within G :=
  List.forall_mem_singleton.mpr h

theorem within_unclosedBlock {opening stop : Span} (hopening : G opening) (hstop : G stop) :
    (unclosedBlock opening stop).Within G :=
  List.forall_mem_cons.mpr ⟨hstop, List.forall_mem_singleton.mpr hopening⟩

theorem within_tooManyFields (ctor : Ident) {extra : Span} (h : G extra) :
    (tooManyFields ctor extra).Within G :=
  List.forall_mem_singleton.mpr h

theorem within_tooDeep {opening : Span} (h : G opening) : (tooDeep opening).Within G :=
  List.forall_mem_singleton.mpr h

/-- A success has no error that could be of another sort. -/
theorem forall_of_ok {α : Type} {E : SyntaxError → Prop} (a : α) :
    ∀ e, (.ok a : Except SyntaxError α) = .error e → E e := by
  intro e he
  cases he

end SyntaxError

/-- All errors of a reply, the one that stopped the reading included, are of one sort. -/
def Reply.Blames {α : Type} (E : SyntaxError → Prop) (r : Reply α) : Prop :=
  (∀ e ∈ r.notes, E e) ∧ ∀ e, r.result = .error e → E e

namespace Reply.Blames

variable {α β : Type} {E : SyntaxError → Prop}

theorem done (a : α) (ts : List Token) : Blames E ⟨[], ts, .ok a⟩ :=
  ⟨List.forall_mem_nil _, SyntaxError.forall_of_ok _⟩

/-- **One reply behind the other** blames what the two of them blame. The second one is reached only
if the first one succeeds. -/
theorem andThen {r : Reply α} {f : α → List Token → Reply β} (h : r.Blames E)
    (hf : ∀ a, r.result = .ok a → (f a r.rest).Blames E) : (r.andThen f).Blames E := by
  obtain ⟨hnotes, herror⟩ := h
  -- notes of both parts are kept, and the error is that of the part that fails
  cases hr : r.result with
  | error e =>
    rw [andThen_of_error hr]
    refine ⟨hnotes, fun e' he => ?_⟩
    cases he
    exact herror e hr
  | ok a =>
    obtain ⟨hnotes', herror'⟩ := hf a hr
    rw [andThen_of_ok hr]
    exact ⟨List.forall_mem_append.mpr ⟨hnotes, hnotes'⟩, herror'⟩

end Reply.Blames

namespace Reader

variable {α β : Type} {G : Span → Prop} {E : SyntaxError → Prop}

/-- What a reader reports about tokens at spans of one kind. -/
def Blames (G : Span → Prop) (E : SyntaxError → Prop) (p : Reader α) : Prop :=
  ∀ ts, (∀ t ∈ ts, G t.span) → (p.run ts).Blames E

namespace Blames

variable {p : Reader α} {f : α → Reader β} {P : α → Prop}

theorem pure (a : α) : Blames G E (Pure.pure a) :=
  fun _ _ => ⟨List.forall_mem_nil _, SyntaxError.forall_of_ok _⟩

theorem fail {e : SyntaxError} (h : E e) : Blames G E (Reader.fail e : Reader α) := by
  refine fun _ _ => ⟨List.forall_mem_nil _, fun e' he => ?_⟩
  cases he
  exact h

theorem note {e : SyntaxError} (h : E e) : Blames G E (Reader.note e) :=
  fun _ _ => ⟨List.forall_mem_singleton.mpr h, SyntaxError.forall_of_ok _⟩

theorem peek (stop : Token) : Blames G E (Reader.peek stop) :=
  fun _ _ => ⟨List.forall_mem_nil _, SyntaxError.forall_of_ok _⟩

theorem skip : Blames G E Reader.skip :=
  fun _ _ => ⟨List.forall_mem_nil _, SyntaxError.forall_of_ok _⟩

theorem next (stop : Token) (kind : TokenKind) : Blames G E (Reader.next stop kind) :=
  fun _ _ => ⟨List.forall_mem_nil _, SyntaxError.forall_of_ok _⟩

/-- **Sequencing.** The second part may report what the first one has read. -/
theorem bind (hp : Blames G E p) (hread : Gives (G ·.span) P p) (hf : ∀ a, P a → Blames G E (f a)) :
    Blames G E (p >>= f) := by
  intro ts hts
  refine Reply.Blames.andThen (hp ts hts) fun a ha => hf a (hread ts hts a ha) _ fun t ht => ?_
  exact hts t ((p.rest_suffix ts).subset ht)

/-- Sequencing where nothing of what is read can be reported. -/
theorem andThen (hp : Blames G E p) (hf : ∀ a, Blames G E (f a)) : Blames G E (p >>= f) :=
  hp.bind (Gives.trivial p) fun a _ => hf a

/-- **Repetition.** -/
theorem many {round : Reader (Option α)} (h : Blames G E round) :
    Blames G E (Reader.many round) := by
  -- every round is given tokens of the kind, because it is given what is left of them
  refine manyFrom_induction (M := fun ts r => (∀ t ∈ ts, G t.span) → r.Blames E) round
    fun ts ih hts => Reply.Blames.andThen (h ts hts) fun o _ => ?_
  cases o with
  | none => exact .done ..
  | some a =>
    rw [furtherRounds]
    split
    · next hlt =>
      rw [Reply.map_eq_andThen]
      refine Reply.Blames.andThen (ih _ hlt fun t ht => ?_) fun as _ => .done ..
      exact hts t ((round.rest_suffix ts).subset ht)
    · exact .done ..

end Blames

/-! ### The readers of the grammar -/

section Grammar

variable {stop : Token}

/-- The errors of a sort are all that can be made of tokens at spans of a kind, argument lists that
nest too deep apart. -/
structure ErrorSort (G : Span → Prop) (E : SyntaxError → Prop) (stop : Token) : Prop where
  stop_kind : stop.kind = .endOfInput
  stop : G stop.span
  merge : ∀ s t, G s → G t → G (s.merge t)
  unexpected : ∀ x t, G t.span → E (.unexpected x t)
  unclosedBlock : ∀ s t, G s → G t → E (.unclosedBlock s t)
  tooManyFields : ∀ ctor s, G s → E (.tooManyFields ctor s)

/-- A token that is looked at may be the end. -/
theorem gives_span_peek (hstop : G stop.span) :
    Gives (G ·.span) (fun t => G t.span) (peek stop) := by
  intro ts hts t ht
  cases ht
  cases ts with
  | nil => exact hstop
  | cons t ts => exact hts t List.mem_cons_self

variable (h : ErrorSort G E stop)
include h

/-- An expected token that is not there is reported at the one that is. -/
theorem blames_expect (kind : TokenKind) (expected : Expectation) :
    Blames G E (expect stop kind expected) := by
  refine (Blames.peek stop).bind (gives_span_peek h.stop) fun t ht => ?_
  split
  · exact Blames.skip.andThen fun _ => .pure t
  · exact .fail (h.unexpected _ _ ht)

theorem blames_ident (expected : Expectation) : Blames G E (ident stop expected) :=
  (blames_expect h _ expected).andThen fun _ => .pure _

omit h in
/-- Argument lists report what their elements report. -/
theorem blames_argumentList {element : Reader α} (helement : Blames G E element) :
    Blames G E (argumentList stop element) := by
  refine (Blames.next stop _).andThen fun b => ?_
  split
  · exact .pure _
  · -- one more argument, behind its comma
    have hround : Blames G E (next stop .comma >>= fun b =>
        if b = true then skip >>= fun _ => element >>= fun a => Pure.pure (some a)
        else Pure.pure none) := by
      refine (Blames.next stop _).andThen fun b => ?_
      split
      · exact Blames.skip.andThen fun _ => helement.andThen fun _ => .pure _
      · exact .pure _
    exact helement.andThen fun _ => hround.many.andThen fun _ => .pure _

/-- The inner reader is given the span of the opening parenthesis, which it may report. -/
theorem blames_arguments (name : Ident) {inner : Span → Reader (List α)}
    (hinner : ∀ s, G s → Blames G E (inner s)) : Blames G E (arguments stop name inner) := by
  refine (Blames.peek stop).bind (gives_span_peek h.stop) fun t ht => ?_
  split
  · exact Blames.skip.andThen fun _ => (hinner t.span ht).andThen fun _ =>
      (blames_expect h _ _).andThen fun _ => .pure _
  · exact .pure _

/-- Expressions report what their argument lists report, or that their name is missing. -/
theorem blames_exprWith {inner : Span → Reader (List Expr)}
    (hinner : ∀ s, G s → Blames G E (inner s)) : Blames G E (exprWith stop inner) :=
  (blames_ident h _).andThen fun name =>
    (blames_arguments h name hinner).andThen fun _ => .pure _

/-- Patterns report what their argument lists report, or that they are missing. -/
theorem blames_patternWith {inner : Span → Reader (List Pattern)}
    (hinner : ∀ s, G s → Blames G E (inner s)) : Blames G E (patternWith stop inner) := by
  refine (Blames.peek stop).andThen fun t => ?_
  split
  · exact Blames.skip.andThen fun _ => .pure _
  · exact (blames_ident h _).andThen fun name =>
      (blames_arguments h name hinner).andThen fun _ => .pure _

section Deep

variable (hdeep : ∀ s, G s → E (.tooDeep s))
include hdeep

theorem blames_expr (n : Nat) : Blames G E (expr stop n) := by
  -- where no depth is left, the opening parenthesis is reported
  induction n with
  | zero => exact blames_exprWith h fun _ hs => .fail (hdeep _ hs)
  | succ n ih => exact blames_exprWith h fun _ _ => blames_argumentList ih

theorem blames_pattern (n : Nat) : Blames G E (pattern stop n) := by
  induction n with
  | zero => exact blames_patternWith h fun _ hs => .fail (hdeep _ hs)
  | succ n ih => exact blames_patternWith h fun _ _ => blames_argumentList ih

end Deep

/-- Further fields report only that a name is missing. -/
theorem blames_extraField : Blames G E (extraField stop) := by
  refine (Blames.next stop _).andThen fun b => ?_
  split
  · refine Blames.skip.andThen fun _ => (Blames.next stop _).andThen fun b => ?_
    split
    · exact .pure _
    · exact (blames_ident h _).andThen fun _ => .pure _
  · exact .pure _

/-- Seeking the end of a block can only fail at the end of the input. -/
theorem blames_closeBlock {opening : Span} (hopening : G opening) (depth : Nat) (ts : List Token) :
    (closeBlock stop opening depth ts).Blames E := by
  -- the depth is general, since braces open and close on the way
  induction ts generalizing depth with
  | nil =>
    refine ⟨List.forall_mem_nil _, fun e he => ?_⟩
    cases he
    exact h.unclosedBlock _ _ hopening h.stop
  | cons t ts ih =>
    unfold closeBlock
    split
    · exact ih _
    · exact ⟨List.forall_mem_nil _, SyntaxError.forall_of_ok _⟩
    · exact ih _
    · exact ih _

/-- A block that is not closed is reported at the brace that was read and at the end. -/
theorem blames_block : Blames G E (block stop) :=
  (blames_expect h _ _).bind (gives_span_expect h.stop_kind (by decide) _) fun _ hopening ts _ =>
    blames_closeBlock h hopening 0 ts

/-- Further fields are reported together, at a span that is merged from those of their names. -/
theorem blames_extraFields (ctor : Ident) (field : Option Ident) :
    Blames G E (extraFields stop ctor field) := by
  -- the names are kept, since the error merges their spans
  have hread : Gives (G ·.span) (fun o => ∀ i ∈ o, G i.span) (extraField stop) := by
    refine Gives.next stop _ fun b => ?_
    split
    · refine Gives.skip (Gives.next stop _ fun b => ?_)
      split
      · exact .none
      · exact (gives_span_ident h.stop_kind _).bind fun _ hi => .some hi
    · exact .none
  refine (blames_extraField h).many.bind (Gives.many hread) fun extra hextra => ?_
  cases extra with
  | nil => exact .pure field
  | cons first others =>
    obtain ⟨hfirst, hothers⟩ := List.forall_mem_cons.mp hextra
    have hall : G (others.foldl (fun s i => s.merge i.span) first.span) :=
      List.foldlRecOn others _ hfirst fun s hs i hi => h.merge s i.span hs (hothers i hi)
    exact (Blames.note (h.tooManyFields ctor _ hall)).andThen fun _ => .pure field

/-- A constructor reports on its name, on its fields and on its closing parenthesis. -/
theorem blames_ctorDecl : Blames G E (ctorDecl stop) := by
  -- the first field may be missing, but further ones are read all the same
  have hfields : ∀ ctor, Blames G E (fields stop ctor) := by
    intro ctor
    have hrest := blames_extraFields h ctor
    refine (Blames.next stop _).andThen fun b => ?_
    cases b with
    | true => exact (Blames.pure none).andThen hrest
    | false =>
      exact Blames.andThen ((blames_ident h _).andThen fun _ => .pure _) hrest
  refine (blames_ident h _).andThen fun name => (Blames.next stop _).andThen fun b => ?_
  split
  · exact Blames.skip.andThen fun _ => (hfields name).andThen fun _ =>
      (blames_expect h _ _).andThen fun _ => .pure _
  · exact .pure _

/-- A declaration reports on its constructors and on what stands between them. -/
theorem blames_enumDecl (keyword : Span) : Blames G E (enumDecl stop keyword) := by
  -- an error is at the token that stands in place of a comma, which may be the end
  have hseparator : ∀ ctor, Blames G E (separator stop ctor) := by
    intro ctor
    refine (Blames.peek stop).bind (gives_span_peek h.stop) fun t ht => ?_
    split
    · exact .skip
    · split
      · exact .pure ()
      · exact .fail (h.unexpected _ _ ht)
  have hround : Blames G E (ctorRound stop) := by
    refine (Blames.next stop _).andThen fun b => ?_
    split
    · exact .pure _
    · exact (blames_ctorDecl h).andThen fun ctor =>
        (hseparator ctor).andThen fun _ => .pure _
  exact (blames_ident h _).andThen fun _ => (blames_expect h _ _).andThen fun _ =>
    hround.many.andThen fun _ => (blames_expect h _ _).andThen fun _ => .pure _

section Deep

variable (hdeep : ∀ s, G s → E (.tooDeep s))
include hdeep

theorem blames_arm : Blames G E (arm stop) :=
  (blames_pattern h hdeep _).andThen fun _ => (blames_expect h _ _).andThen fun _ =>
    (blames_block h).andThen fun _ => .pure _

/-- A match reports on its expression and on its arms. -/
theorem blames_matchExpr (keyword : Span) : Blames G E (matchExpr stop keyword) := by
  -- a comma behind an arm may be missing without an error
  have hround : Blames G E (armRound stop) := by
    refine (Blames.peek stop).andThen fun t => ?_
    split
    · exact .pure _
    · refine (blames_arm h hdeep).andThen fun _ => (Blames.next stop _).andThen fun b => ?_
      split
      · exact Blames.skip.andThen fun _ => .pure _
      · exact .pure _
  exact (blames_expr h hdeep _).andThen fun _ => (blames_expect h _ _).andThen fun _ =>
    hround.many.andThen fun _ => (blames_expect h _ _).andThen fun _ => .pure _

/-- **Items report nothing that is not of the sort**, if their first token is of the kind. -/
theorem blames_item {t : Token} (ht : G t.span) : Blames G E (item stop t) := by
  unfold item
  split
  · exact (blames_enumDecl h _).andThen fun _ => .pure _
  · exact (blames_matchExpr h hdeep _).andThen fun _ => .pure _
  · exact .fail (h.unexpected _ _ ht)

end Deep

end Grammar

end Reader

/-! ### Whole programs -/

/-- **Errors are reported at spans that are merged from those of tokens.** -/
theorem Program.within_errors {G : Span → Prop} (hmerge : ∀ s t, G s → G t → G (s.merge t))
    {stop : Token} (hend : stop.kind = .endOfInput) (hstop : G stop.span) {ts : List Token}
    (hts : ∀ t ∈ ts, G t.span) : ∀ e ∈ (ofTokens stop ts).2, e.Within G := by
  change ∀ e ∈ (itemsFrom stop ts).2, e.Within G
  -- every sort of error is at a token, or between tokens
  have h : Reader.ErrorSort G (SyntaxError.Within G) stop :=
    ⟨hend, hstop, hmerge, fun x _ => SyntaxError.within_unexpected x,
      fun _ _ => SyntaxError.within_unclosedBlock, fun c _ => SyntaxError.within_tooManyFields c⟩
  have hdeep : ∀ s, G s → (SyntaxError.tooDeep s).Within G :=
    fun _ => SyntaxError.within_tooDeep
  -- item by item, each of which is given tokens behind those of the items before it
  induction ts using items_induction stop with
  | nil =>
    rw [itemsFrom]
    exact List.forall_mem_nil _
  | ok t ts item hr ih =>
    obtain ⟨ht, hts⟩ := List.forall_mem_cons.mp hts
    have hitem := Reader.blames_item h hdeep ht ts hts
    rw [itemsFrom_of_ok hr]
    refine List.forall_mem_append.mpr ⟨hitem.1, ih fun u hu => hts u ?_⟩
    exact ((Reader.item stop t).rest_suffix ts).subset hu
  | error t ts e hr ih =>
    obtain ⟨ht, hts⟩ := List.forall_mem_cons.mp hts
    have hitem := Reader.blames_item h hdeep ht ts hts
    have hlater := ih fun u hu => hts u ((resume_rest_suffix stop t ts).subset hu)
    rw [itemsFrom_of_error hr]
    exact List.forall_mem_append.mpr
      ⟨hitem.1, List.forall_mem_cons.mpr ⟨hitem.2 e hr, hlater⟩⟩

/-- **Findings are at tokens.** If the tokens of a source and its end are at spans of one kind, and
merging and going to the front stay within the kind, then all spans of the findings about the source
are of this kind. -/
theorem Source.forall_spans_of_tokens {G : Span → Prop} (source : Source)
    (hmerge : ∀ s t, G s → G t → G (s.merge t)) (hfront : ∀ s, G s → G s.shrinkToStart)
    (htokens : ∀ t ∈ source.tokens, G t.span) (hend : G source.endSpan) (options : CheckOptions) :
    ∀ d ∈ source.check options, ∀ s ∈ d.spans, G s := by
  have hleft : ∀ t ∈ source.tokens.filter (!·.kind.isTrivia), G t.span :=
    fun t ht => htokens t (List.mem_of_mem_filter ht)
  intro d hd
  -- errors of the reading come first, then the findings about the program
  rcases List.mem_append.mp hd with hd | hd
  · obtain ⟨e, he, rfl⟩ := List.mem_map.mp hd
    exact Program.within_errors hmerge rfl hend hleft e he
  · exact Program.forall_spans_check hfront ⟨_, hend⟩ (Program.all_layouts hmerge rfl hleft) options
      d hd

end MatchCheck
