import MatchCheck.Proofs.Diagnostic.Sorted
import MatchCheck.Proofs.Program.Leaf
import MatchCheck.Proofs.Program.Recovery
import MatchCheck.Proofs.Token.Place

/-!
# Syntax errors come in order

The errors of a token sequence are reported where they are met, from front to back, and no two of
them begin at one offset (`Source.ascending_errors`).

Most errors stop the reading of an item, at the token that was not wanted. That token is left, and
what resumes behind the error begins with it or later. Two errors are reported at a token that has
been passed over: an argument list that nests too deep, at its opening parenthesis, and the further
fields of a constructor, at the first of them. The latter does not stop the reading, so that the
same item may be reported again, but only from the next token on. So whatever is noted on the way
begins before the next token that is left, and what stops the reading begins there or before, behind
all notes (`Reply.InOrder`). This is kept by sequencing and repetition.

The one danger is the token at which reading resumes: it was left, and may have been reported. But
it begins an item, and an item is reported nowhere at its first token (`Reader.reports_item`).
-/

namespace MatchCheck

/-- The offset at which an error is reported. -/
def SyntaxError.start (e : SyntaxError) : Nat :=
  e.diagnostic.span.start.offset

/-! ### Tokens from front to back -/

namespace Token

variable {stop t : Token} {ts us : List Token}

/-- The offset at which the next token begins. If none is left, that is the end. -/
def front (stop : Token) (ts : List Token) : Nat :=
  (ts.headD stop).span.start.offset

/-- Tokens that begin one behind the other, all of them before the end. -/
structure Ascending (stop : Token) (ts : List Token) : Prop where
  ordered : ts.Pairwise fun t u => t.span.start.offset < u.span.start.offset
  before_end : ∀ t ∈ ts, t.span.start.offset < stop.span.start.offset
  not_end : ∀ t ∈ ts, t.kind ≠ .endOfInput

/-- What is left of tokens that ascend ascends. -/
theorem Ascending.of_suffix (h : Ascending stop ts) (hus : us <:+ ts) : Ascending stop us where
  ordered := h.ordered.sublist hus.sublist
  before_end t ht := h.before_end t (hus.subset ht)
  not_end t ht := h.not_end t (hus.subset ht)

theorem Ascending.tail (h : Ascending stop (t :: ts)) : Ascending stop ts :=
  h.of_suffix (List.suffix_cons t ts)

/-- A token begins before whatever is left behind it. -/
theorem Ascending.start_lt (h : Ascending stop (t :: ts)) (hus : us <:+ ts) :
    t.span.start.offset < front stop us := by
  cases us with
  | nil => exact h.before_end t List.mem_cons_self
  | cons u us => exact (List.pairwise_cons.mp h.ordered).1 u (hus.subset List.mem_cons_self)

/-- What is left later begins later. -/
theorem Ascending.front_le (h : Ascending stop ts) (hus : us <:+ ts) :
    front stop ts ≤ front stop us := by
  cases ts with
  | nil => rw [List.suffix_nil.mp hus]
  | cons t ts =>
    rcases List.suffix_cons_iff.mp hus with rfl | hus
    · exact Nat.le_refl _
    · exact Nat.le_of_lt (h.start_lt hus)

end Token

/-! ### Replies whose errors are in order -/

/-- The errors of a reply ascend from an offset on: those noted on the way begin before the tokens
that are left, and the one that stopped the reading begins behind them and no later than these. Only
what is reported at the end of the input begins there. A value that is read is known to fit the
offset at which the tokens that are left begin. -/
structure Reply.InOrder {α : Type} (stop : Token) (lo : Nat) (post : α → Nat → Prop)
    (r : Reply α) : Prop where
  ascending : r.notes.Pairwise fun e f => e.start < f.start
  notes : ∀ e ∈ r.notes, lo ≤ e.start ∧ e.start < Token.front stop r.rest ∧ ¬ e.AtEnd
  error : ∀ e, r.result = .error e → lo ≤ e.start ∧ e.start ≤ Token.front stop r.rest ∧
    (∀ n ∈ r.notes, n.start < e.start) ∧ (e.AtEnd → e.start = stop.span.start.offset)
  ok : ∀ a, r.result = .ok a → post a (Token.front stop r.rest)

namespace Reply.InOrder

variable {α : Type} {stop : Token} {lo lo' : Nat} {P Q : α → Nat → Prop} {r : Reply α}

/-- Errors behind an offset are behind every offset before it. -/
theorem mono (h : r.InOrder stop lo P) (hlo : lo' ≤ lo) : r.InOrder stop lo' P where
  ascending := h.ascending
  notes e he := ⟨hlo.trans (h.notes e he).1, (h.notes e he).2⟩
  error e he := ⟨hlo.trans (h.error e he).1, (h.error e he).2⟩
  ok := h.ok

theorem imp (h : r.InOrder stop lo P) (hPQ : ∀ a hi, P a hi → Q a hi) : r.InOrder stop lo Q where
  ascending := h.ascending
  notes := h.notes
  error := h.error
  ok a ha := hPQ a _ (h.ok a ha)

/-- A reply that reports nothing. -/
theorem of_ok {a : α} {ts : List Token} (h : P a (Token.front stop ts)) :
    (⟨[], ts, .ok a⟩ : Reply α).InOrder stop lo P where
  ascending := .nil
  notes := by simp
  error := by simp
  ok b hb := by
    cases hb
    exact h

/-- A reply that reports nothing but what stopped the reading. -/
theorem of_error {e : SyntaxError} {ts : List Token} (hlo : lo ≤ e.start)
    (hhi : e.start ≤ Token.front stop ts) (hend : e.AtEnd → e.start = stop.span.start.offset) :
    (⟨[], ts, .error e⟩ : Reply α).InOrder stop lo P where
  ascending := .nil
  notes := by simp
  error f hf := by
    cases hf
    exact ⟨hlo, hhi, by simp, hend⟩
  ok := by simp

variable {β : Type} {R : β → Nat → Prop}

/-- One reply behind the other: what is noted first begins before the tokens that are left, and the
second reply reports nothing in front of them. -/
theorem append {s : Reply β} (hr : r.InOrder stop lo P)
    (hs : s.InOrder stop (Token.front stop r.rest) R) (hlo : lo ≤ Token.front stop r.rest)
    (hlater : Token.front stop r.rest ≤ Token.front stop s.rest) :
    (⟨r.notes ++ s.notes, s.rest, s.result⟩ : Reply β).InOrder stop lo R where
  ascending := List.pairwise_append.mpr ⟨hr.ascending, hs.ascending, fun m hm n hn =>
    Nat.lt_of_lt_of_le (hr.notes m hm).2.1 (hs.notes n hn).1⟩
  notes n hn := by
    -- a note of the first part is in front of where the second part begins
    rcases List.mem_append.mp hn with hn | hn
    · obtain ⟨hge, hlt, hend⟩ := hr.notes n hn
      exact ⟨hge, Nat.lt_of_lt_of_le hlt hlater, hend⟩
    · obtain ⟨hge, hlt, hend⟩ := hs.notes n hn
      exact ⟨hlo.trans hge, hlt, hend⟩
  error e he := by
    obtain ⟨hge, hle, hbehind, hend⟩ := hs.error e he
    refine ⟨hlo.trans hge, hle, fun n hn => ?_, hend⟩
    rcases List.mem_append.mp hn with hn | hn
    · exact Nat.lt_of_lt_of_le (hr.notes n hn).2.1 hge
    · exact hbehind n hn
  ok := hs.ok

/-- **One reply behind the other.** What stopped the first one is all that is reported, or the
second one goes on with the tokens that are left. -/
theorem andThen {f : α → List Token → Reply β} (hr : r.InOrder stop lo P)
    (hlo : lo ≤ Token.front stop r.rest)
    (hf : ∀ a, P a (Token.front stop r.rest) →
      (f a r.rest).InOrder stop (Token.front stop r.rest) R ∧
        Token.front stop r.rest ≤ Token.front stop (f a r.rest).rest) :
    (r.andThen f).InOrder stop lo R := by
  -- a failure ends the reading, with what was noted so far
  cases hresult : r.result with
  | error e =>
    rw [Reply.andThen_of_error hresult]
    refine ⟨hr.ascending, hr.notes, fun e' he => ?_, by simp⟩
    cases he
    exact hr.error e hresult
  | ok a =>
    obtain ⟨hs, hlater⟩ := hf a (hr.ok a hresult)
    rw [Reply.andThen_of_ok hresult]
    exact hr.append hs hlo hlater

end Reply.InOrder

namespace Reader

variable {α β : Type} {stop : Token} {lo : Nat}

/-- On tokens from an offset on, the errors of a reader are in order. -/
def Reports (stop : Token) (lo : Nat) (p : Reader α) (post : α → Nat → Prop) : Prop :=
  ∀ ts, Token.Ascending stop ts → lo ≤ Token.front stop ts → (p.run ts).InOrder stop lo post

/-- Nothing is known of what is read. -/
def Anything : α → Nat → Prop :=
  fun _ _ => True

namespace Reports

variable {p : Reader α} {f : α → Reader β} {P : α → Nat → Prop} {Q : β → Nat → Prop}

theorem pure {b : β} (h : ∀ hi, lo ≤ hi → Q b hi) : Reports stop lo (Pure.pure b) Q :=
  fun _ _ hlo => .of_ok (h _ hlo)

/-- **Sequencing.** The second part reads what the first one left. -/
theorem bind (hp : Reports stop lo p P)
    (hf : ∀ a mid, lo ≤ mid → P a mid → Reports stop mid (f a) Q) :
    Reports stop lo (p >>= f) Q := by
  intro ts hts hlo
  -- the tokens that are left begin no earlier than those that were given
  have hmid := hlo.trans (hts.front_le (p.rest_suffix ts))
  have hrest := hts.of_suffix (p.rest_suffix ts)
  refine (hp ts hts hlo).andThen hmid fun a ha => ?_
  exact ⟨hf a _ hmid ha _ hrest (Nat.le_refl _), hrest.front_le ((f a).rest_suffix _)⟩

theorem skip : Reports stop lo Reader.skip Anything := by
  intro ts hts _
  exact .of_ok trivial

/-- What is decided about the next token is decided about one that is there or about the end. -/
theorem peek {f : Token → Reader α}
    (hcons : ∀ t ts, Token.Ascending stop (t :: ts) → lo ≤ t.span.start.offset →
      ((f t).run (t :: ts)).InOrder stop lo P)
    (hnil : lo ≤ stop.span.start.offset → ((f stop).run []).InOrder stop lo P) :
    Reports stop lo (Reader.peek stop >>= f) P := by
  intro ts hts hlo
  cases ts with
  | nil => exact hnil hlo
  | cons t ts => exact hcons t ts hts hlo

theorem next (kind : TokenKind) {f : Bool → Reader α} (hf : ∀ b, Reports stop lo (f b) P) :
    Reports stop lo (Reader.next stop kind >>= f) P := by
  intro ts hts hlo
  exact hf _ ts hts hlo

/-- A reader behind a token that is passed over. -/
theorem behindSkip {p : Reader α} (hp : ∀ mid, lo ≤ mid → Reports stop mid p P) :
    Reports stop lo (Reader.skip >>= fun _ => p) P :=
  skip.bind fun _ mid hmid _ => hp mid hmid

/-- **Repetition.** The rounds report one behind the other, and what each of them reads is known to
fit the whole stretch that is read. -/
theorem many {round : Reader (Option α)} {R : Nat → α → Nat → Prop}
    (hR : ∀ {lo lo' hi hi' : Nat} {a : α}, lo' ≤ lo → hi ≤ hi' → R lo a hi → R lo' a hi')
    (h : ∀ lo, Reports stop lo round fun o hi => ∀ a ∈ o, R lo a hi) :
    ∀ lo, Reports stop lo (Reader.many round) fun as hi => ∀ a ∈ as, R lo a hi := by
  intro lo ts hts hlo
  refine manyFrom_induction (M := fun ts r => ∀ lo, Token.Ascending stop ts →
    lo ≤ Token.front stop ts → r.InOrder stop lo fun as hi => ∀ a ∈ as, R lo a hi) round ?_
    ts lo hts hlo
  intro ts ih lo hts hlo
  -- the further rounds begin with the tokens that the first one left
  have hmid := hlo.trans (hts.front_le (round.rest_suffix ts))
  have hrest := hts.of_suffix (round.rest_suffix ts)
  refine (h lo ts hts hlo).andThen hmid fun o ho => ?_
  cases o with
  | none => exact ⟨.of_ok (List.forall_mem_nil _), Nat.le_refl _⟩
  | some a =>
    have ha := ho a rfl
    rw [furtherRounds]
    split
    · next hlt =>
      have hlater := hrest.front_le (rest_manyFrom round (round.run ts).rest)
      refine ⟨?_, hlater⟩
      rw [Reply.map_eq_andThen]
      have hrounds := ih _ hlt _ hrest (Nat.le_refl _)
      refine hrounds.andThen hlater fun as has => ⟨.of_ok ?_, Nat.le_refl _⟩
      refine List.forall_mem_cons.mpr ⟨hR (Nat.le_refl _) hlater ha, fun b hb => ?_⟩
      exact hR hmid (Nat.le_refl _) (has b hb)
    · exact ⟨.of_ok (List.forall_mem_singleton.mpr ha), Nat.le_refl _⟩

/-- Repetition of rounds of which nothing is kept. -/
theorem manyAnything {round : Reader (Option α)} (h : ∀ lo, Reports stop lo round Anything) :
    ∀ lo, Reports stop lo (Reader.many round) Anything := by
  intro lo ts hts hlo
  refine (many (R := fun _ _ _ => True) (fun _ _ _ => trivial) (fun lo ts hts hlo => ?_) lo ts hts
    hlo).imp fun _ _ _ => trivial
  exact (h lo ts hts hlo).imp fun _ _ _ _ _ => trivial

end Reports

/-- A reader that notes nothing on the way. -/
def Silent (p : Reader α) : Prop :=
  ∀ ts, (p.run ts).notes = []

/-- Two silent readers one behind the other are silent. -/
theorem Silent.bind {p : Reader α} {f : α → Reader β} (hp : p.Silent) (hf : ∀ a, (f a).Silent) :
    (p >>= f).Silent := by
  intro ts
  rw [run_bind]
  cases hr : (p.run ts).result with
  | error e => rw [Reply.andThen_of_error hr, hp]
  | ok a => rw [Reply.andThen_of_ok hr, hp, hf, List.append_nil]

/-- Silent rounds make a silent repetition. -/
theorem Silent.many {round : Reader (Option α)} (h : round.Silent) :
    (Reader.many round).Silent := by
  intro ts
  show (manyFrom round ts).notes = []
  fun_induction manyFrom round ts with
  | case1 ts r e he => exact h ts
  | case2 ts r hnone => exact h ts
  | case3 ts r a hsome hlt s ih => exact List.append_eq_nil_iff.mpr ⟨h ts, ih⟩
  | case4 ts r a hsome hlt => exact h ts

/-- A name may be missing, but nothing is noted on the way. -/
theorem silent_ident (expected : Expectation) : (ident stop expected).Silent := by
  refine Silent.bind (Silent.bind (fun _ => rfl) fun t => ?_) fun _ _ => rfl
  split
  · exact Silent.bind (fun _ => rfl) fun _ _ => rfl
  · exact fun _ => rfl

/-- A further field is read silently: it is reported once all of them are known. -/
theorem silent_extraField : (extraField stop).Silent := by
  refine Silent.bind (fun _ => rfl) fun b => ?_
  split
  · refine Silent.bind (fun _ => rfl) fun _ => Silent.bind (fun _ => rfl) fun b => ?_
    split
    · exact fun _ => rfl
    · exact (silent_ident _).bind fun _ _ => rfl
  · exact fun _ => rfl

/-! ### The readers of the grammar -/

/-- A token that is not wanted is reported where it stands, whether it is left or not. -/
theorem inOrder_unexpected {P : α → Nat → Prop} {t : Token} {ts us : List Token}
    (hts : Token.Ascending stop (t :: ts)) (hlo : lo ≤ t.span.start.offset)
    (hus : t.span.start.offset ≤ Token.front stop us) (expected : Expectation) :
    ((Reader.fail (.unexpected expected t) : Reader α).run us).InOrder stop lo P := by
  refine .of_error hlo hus fun hatEnd => absurd hatEnd ?_
  -- only the end of the input is reported as such
  show (SyntaxError.unexpectedCode expected t).text ≠ Code.unexpectedEnd.text
  rw [Ne, Code.text_inj, SyntaxError.unexpectedCode, if_neg (hts.not_end t List.mem_cons_self)]
  split <;> decide

section Grammar

variable (hend : stop.kind = .endOfInput)
include hend

/-- **An expected token.** It is reported where it stands if it is another one, and left there. -/
theorem reports_expect {kind : TokenKind} (hkind : kind ≠ .endOfInput) (expected : Expectation) :
    Reports stop lo (expect stop kind expected) fun t hi =>
      lo ≤ t.span.start.offset ∧ t.span.start.offset < hi := by
  refine Reports.peek (fun t ts hts hlo => ?_) fun hlo => ?_
  · split
    · exact .of_ok ⟨hlo, hts.start_lt (List.suffix_refl ts)⟩
    · exact inOrder_unexpected hts hlo (Nat.le_refl _) expected
  · rw [if_neg (hend ▸ hkind.symm)]
    exact .of_error hlo (Nat.le_refl _) fun _ => rfl

theorem reports_token {kind : TokenKind} (hkind : kind ≠ .endOfInput) :
    Reports stop lo (token stop kind) Anything := by
  intro ts hts hlo
  exact (reports_expect hend hkind _ ts hts hlo).imp fun _ _ _ => trivial

/-- A name stands in front of all that is left. -/
theorem reports_ident (expected : Expectation) :
    Reports stop lo (ident stop expected) fun i hi =>
      lo ≤ i.span.start.offset ∧ i.span.start.offset < hi := by
  refine (reports_expect hend (by decide) expected).bind fun t mid _ ht => ?_
  exact Reports.pure fun hi hhi => ⟨ht.1, Nat.lt_of_lt_of_le ht.2 hhi⟩

omit hend in
/-- Argument lists report in the order of their arguments. -/
theorem reports_argumentList {element : Reader α} (h : ∀ lo, Reports stop lo element Anything) :
    ∀ lo, Reports stop lo (argumentList stop element) Anything := by
  -- one more argument, behind its comma
  have hround : ∀ lo, Reports stop lo (next stop .comma >>= fun b =>
      if b = true then skip >>= fun _ => element >>= fun a => Pure.pure (some a)
      else Pure.pure none) Anything := by
    refine fun lo => Reports.next _ fun b => ?_
    split
    · refine Reports.behindSkip fun mid _ => (h mid).bind fun _ _ _ _ => ?_
      exact Reports.pure fun _ _ => trivial
    · exact Reports.pure fun _ _ => trivial
  refine fun lo => Reports.next _ fun b => ?_
  split
  · exact Reports.pure fun _ _ => trivial
  · refine (h lo).bind fun _ mid _ _ => (Reports.manyAnything hround mid).bind fun _ _ _ _ => ?_
    exact Reports.pure fun _ _ => trivial

/-- An argument list may be reported at its opening parenthesis, which has been passed over. -/
theorem reports_arguments (name : Ident) {inner : Span → Reader (List α)}
    (h : ∀ s : Span, Reports stop s.start.offset (inner s) Anything) :
    Reports stop lo (arguments stop name inner) Anything := by
  refine Reports.peek (fun t ts hts hlo => ?_) fun _ => ?_
  · split
    · -- from the opening parenthesis on, which stands in front of all that is left
      have hinside : Reports stop t.span.start.offset
          (inner t.span >>= fun args => token stop .rightParen >>= fun close =>
            Pure.pure (args, close.span)) Anything := by
        refine (h t.span).bind fun _ _ _ _ => ?_
        refine (reports_token hend (by decide)).bind fun _ _ _ _ => ?_
        exact Reports.pure fun _ _ => trivial
      exact (hinside ts hts.tail (Nat.le_of_lt (hts.start_lt (List.suffix_refl ts)))).mono hlo
    · exact .of_ok trivial
  · rw [if_neg (by rw [hend]; decide)]
    exact .of_ok trivial

theorem reports_exprWith {inner : Span → Reader (List Expr)}
    (h : ∀ s : Span, Reports stop s.start.offset (inner s) Anything) :
    Reports stop lo (exprWith stop inner) Anything := by
  refine (reports_ident hend _).bind fun name _ _ _ => ?_
  exact (reports_arguments hend name h).bind fun _ _ _ _ => Reports.pure fun _ _ => trivial

/-- Patterns report in order. -/
theorem reports_patternWith {inner : Span → Reader (List Pattern)}
    (h : ∀ s : Span, Reports stop s.start.offset (inner s) Anything) :
    Reports stop lo (patternWith stop inner) Anything := by
  have hctor : Reports stop lo (ident stop .pattern >>= fun name =>
      arguments stop name inner >>= fun x =>
        Pure.pure (Pattern.ctor (name.span.merge x.2) name x.1)) Anything := by
    refine (reports_ident hend _).bind fun name _ _ _ => ?_
    exact (reports_arguments hend name h).bind fun _ _ _ _ => Reports.pure fun _ _ => trivial
  refine Reports.peek (fun t ts hts hlo => ?_) fun hlo => ?_
  · split
    · exact .of_ok trivial
    · exact hctor (t :: ts) hts hlo
  · -- at the end a name is wanted as well
    rw [if_neg (by rw [hend]; decide)]
    exact hctor [] ⟨.nil, by simp, by simp⟩ hlo

omit hend in
/-- The opening parenthesis is reported, though it has been passed over. It is the least offset that
is allowed. -/
theorem reports_tooDeep (s : Span) :
    Reports stop s.start.offset (fail (.tooDeep s) : Reader α) Anything := by
  intro ts _ hlo
  refine .of_error (Nat.le_refl _) hlo fun hatEnd => absurd hatEnd ?_
  show Code.nestingTooDeep.text ≠ Code.unexpectedEnd.text
  decide

/-- Expressions report in order, whatever depth is left. -/
theorem reports_expr (n : Nat) : ∀ lo, Reports stop lo (expr stop n) Anything := by
  -- the offset stays general, because each argument is reported from its own start on
  induction n with
  | zero => exact fun lo => reports_exprWith hend reports_tooDeep
  | succ n ih => exact fun lo => reports_exprWith hend fun s => reports_argumentList ih _

theorem reports_pattern (n : Nat) : ∀ lo, Reports stop lo (pattern stop n) Anything := by
  induction n with
  | zero => exact fun lo => reports_patternWith hend reports_tooDeep
  | succ n ih => exact fun lo => reports_patternWith hend fun s => reports_argumentList ih _

/-! Declarations -/

/-- A further field stands between where its round begins and what is left. -/
theorem reports_extraField : Reports stop lo (extraField stop) fun o hi =>
    ∀ i ∈ o, lo ≤ i.span.start.offset ∧ i.span.start.offset < hi := by
  refine Reports.next _ fun b => ?_
  split
  · refine Reports.behindSkip fun mid hmid => Reports.next _ fun b => ?_
    -- a comma may be the last thing in the list
    split
    · exact Reports.pure (by simp)
    · refine (reports_ident hend _).bind fun i mid' _ hi => Reports.pure fun hi' hhi => ?_
      rintro j ⟨⟩
      exact ⟨hmid.trans hi.1, Nat.lt_of_lt_of_le hi.2 hhi⟩
  · exact Reports.pure (by simp)

omit hend in
/-- Spans that are merged begin where the first of them does or before, but not before all. -/
theorem start_foldl_merge {is : List Ident} {s : Span} (hs : lo ≤ s.start.offset)
    (his : ∀ i ∈ is, lo ≤ i.span.start.offset) :
    lo ≤ (is.foldl (fun s i => s.merge i.span) s).start.offset ∧
      (is.foldl (fun s i => s.merge i.span) s).start.offset ≤ s.start.offset := by
  -- name by name, where each merge can only move the start to the front
  induction is generalizing s with
  | nil => exact ⟨hs, Nat.le_refl _⟩
  | cons i is ih =>
    obtain ⟨hi, his⟩ := List.forall_mem_cons.mp his
    have hmerge := Span.offset_start_merge s i.span
    obtain ⟨hge, hle⟩ := ih (s := s.merge i.span) (by omega) his
    exact ⟨hge, hle.trans (by omega)⟩

/-- Further fields are reported at the first of them, once all of them have been passed over. -/
theorem reports_extraFields (ctor : Ident) (field : Option Ident) :
    Reports stop lo (extraFields stop ctor field) Anything := by
  intro ts hts hlo
  have hextra := Reports.many
    (R := fun lo (i : Ident) hi => lo ≤ i.span.start.offset ∧ i.span.start.offset < hi)
    (fun hlo hhi h => ⟨hlo.trans h.1, Nat.lt_of_lt_of_le h.2 hhi⟩)
    (fun lo => reports_extraField hend) lo ts hts hlo
  -- the fields themselves are only read, so the error about them is the only note
  have hsilent : ((many (extraField stop)).run ts).notes = [] := silent_extraField.many ts
  unfold extraFields
  rw [run_bind]
  cases hr : ((many (extraField stop)).run ts).result with
  | error e =>
    obtain ⟨hge, hle, -, hatEnd⟩ := hextra.error e hr
    rw [Reply.andThen_of_error hr, hsilent]
    exact .of_error hge hle hatEnd
  | ok extra =>
    rw [Reply.andThen_of_ok hr, hsilent]
    cases extra with
    | nil => exact .of_ok trivial
    | cons first others =>
      obtain ⟨hfirst, hothers⟩ := List.forall_mem_cons.mp (hextra.ok _ hr)
      -- the error spans all further fields and begins with the first
      obtain ⟨hge, hle⟩ := start_foldl_merge hfirst.1 fun i hi => (hothers i hi).1
      refine ⟨List.pairwise_singleton _ _, ?_, fun _ => nofun, fun _ _ => trivial⟩
      refine List.forall_mem_singleton.mpr ⟨hge, Nat.lt_of_le_of_lt hle hfirst.2, ?_⟩
      show Code.tooManyFields.text ≠ Code.unexpectedEnd.text
      decide

/-- A constructor reports on its fields behind its name. -/
theorem reports_ctorDecl : Reports stop lo (ctorDecl stop) Anything := by
  refine (reports_ident hend _).bind fun name mid _ _ => Reports.next _ fun b => ?_
  split
  · refine Reports.behindSkip fun mid _ => Reports.bind (P := Anything) ?_ fun _ _ _ _ =>
      (reports_token hend (by decide)).bind fun _ _ _ _ => Reports.pure fun _ _ => trivial
    refine Reports.next _ fun b => ?_
    -- with a field or without, further fields are read behind it
    cases b with
    | true =>
      refine Reports.bind (P := Anything) (Reports.pure fun _ _ => trivial) fun field _ _ _ => ?_
      exact reports_extraFields hend name field
    | false =>
      refine Reports.bind (P := Anything) ?_ fun field _ _ _ => reports_extraFields hend name field
      exact (reports_ident hend _).bind fun _ _ _ _ => Reports.pure fun _ _ => trivial
  · exact Reports.pure fun _ _ => trivial

/-- What stands in place of a comma is reported and left. -/
theorem reports_separator (ctor : CtorDecl) :
    Reports stop lo (separator stop ctor) Anything := by
  refine Reports.peek (fun t ts hts hlo => ?_) fun hlo => ?_
  · split
    · exact .of_ok trivial
    · split
      · exact .of_ok trivial
      · exact inOrder_unexpected hts hlo (Nat.le_refl _) _
  · -- at the end of the text there is no comma
    rw [if_neg (by rw [hend]; decide)]
    split
    · exact .of_ok trivial
    · exact .of_error hlo (Nat.le_refl _) fun _ => rfl

/-- **A declaration reports in order**, constructor by constructor. -/
theorem reports_enumDecl (keyword : Span) :
    Reports stop lo (enumDecl stop keyword) Anything := by
  -- a constructor with what separates it from the next
  have hround : ∀ lo, Reports stop lo (ctorRound stop) Anything := by
    refine fun lo => Reports.next _ fun b => ?_
    split
    · exact Reports.pure fun _ _ => trivial
    · refine (reports_ctorDecl hend).bind fun ctor _ _ _ => ?_
      exact (reports_separator hend ctor).bind fun _ _ _ _ => Reports.pure fun _ _ => trivial
  refine (reports_ident hend _).bind fun _ _ _ _ => (reports_token hend (by decide)).bind ?_
  refine fun _ mid _ _ => (Reports.manyAnything hround mid).bind fun _ _ _ _ => ?_
  exact (reports_token hend (by decide)).bind fun _ _ _ _ => Reports.pure fun _ _ => trivial

/-! Matches -/

omit hend in
/-- A block that is not closed is reported at the end. -/
theorem inOrder_closeBlock (opening : Span) (depth : Nat) {ts : List Token}
    (hts : Token.Ascending stop ts) (hlo : lo ≤ Token.front stop ts) :
    (closeBlock stop opening depth ts).InOrder stop lo Anything := by
  -- what is left begins later and later, and so does what could be reported
  induction ts generalizing depth with
  | nil => exact .of_error hlo (Nat.le_refl _) fun _ => rfl
  | cons t ts ih =>
    have hlater := hlo.trans (hts.front_le (List.suffix_cons t ts))
    unfold closeBlock
    split
    · exact ih _ hts.tail hlater
    · exact .of_ok trivial
    · exact ih _ hts.tail hlater
    · exact ih _ hts.tail hlater

/-- An arm reports on its pattern, then on its body. -/
theorem reports_arm : Reports stop lo (arm stop) Anything := by
  have hblock : ∀ lo, Reports stop lo (block stop) Anything := fun lo =>
    (reports_token hend (by decide)).bind fun opening mid _ _ ts hts hlo =>
      inOrder_closeBlock opening.span 0 hts hlo
  refine (reports_pattern hend maxNesting lo).bind fun _ _ _ _ => ?_
  refine (reports_token hend (by decide)).bind fun _ mid _ _ => (hblock mid).bind fun _ _ _ _ => ?_
  exact Reports.pure fun _ _ => trivial

/-- A round of arms reports what its arm reports. -/
theorem reports_armRound : Reports stop lo (armRound stop) Anything := by
  have harm : Reports stop lo (arm stop >>= fun a => next stop .comma >>= fun b =>
      if b = true then skip >>= fun _ => Pure.pure (some a) else Pure.pure (some a)) Anything := by
    refine (reports_arm hend).bind fun _ _ _ _ => Reports.next _ fun b => ?_
    split
    · exact Reports.behindSkip fun _ _ => Reports.pure fun _ _ => trivial
    · exact Reports.pure fun _ _ => trivial
  refine Reports.peek (fun t ts hts hlo => ?_) fun hlo => ?_
  · split
    · exact .of_ok trivial
    · exact harm (t :: ts) hts hlo
  · -- at the end of the text the arms end too, and the missing brace is reported behind them
    rw [if_pos (by rw [hend]; rfl)]
    exact .of_ok trivial

/-- **A match reports in order**, arm by arm. -/
theorem reports_matchExpr (keyword : Span) :
    Reports stop lo (matchExpr stop keyword) Anything := by
  refine (reports_expr hend maxNesting lo).bind fun _ _ _ _ => ?_
  refine (reports_token hend (by decide)).bind fun _ mid _ _ => ?_
  refine (Reports.manyAnything (fun lo => reports_armRound hend) mid).bind fun _ _ _ _ => ?_
  exact (reports_token hend (by decide)).bind fun _ _ _ _ => Reports.pure fun _ _ => trivial

/-- **An item is reported behind its first token.** -/
theorem reports_item {t : Token} (ht : t.beginsItem = true) :
    Reports stop lo (item stop t) Anything := by
  unfold item
  split
  · exact (reports_enumDecl hend t.span).bind fun _ _ _ _ => Reports.pure fun _ _ => trivial
  · exact (reports_matchExpr hend t.span).bind fun _ _ _ _ => Reports.pure fun _ _ => trivial
  · next henum hmatch =>
    rw [Token.beginsItem, Bool.or_eq_true, beq_iff_eq, beq_iff_eq] at ht
    exact absurd ht (not_or.mpr ⟨henum, hmatch⟩)

end Grammar

end Reader

/-! ### Whole programs -/

namespace Program

variable {stop : Token}

/-- The least offset at which tokens can be reported: a token that begins an item is no error. -/
def reportedFrom (stop : Token) : List Token → Nat
  | [] => stop.span.start.offset
  | t :: _ => if t.beginsItem then t.span.start.offset + 1 else t.span.start.offset

theorem reportedFrom_cons (t : Token) (ts : List Token) :
    reportedFrom stop (t :: ts) =
      if t.beginsItem then t.span.start.offset + 1 else t.span.start.offset :=
  rfl

/-- Nothing can be reported before the next token. -/
theorem front_le_reportedFrom (ts : List Token) : Token.front stop ts ≤ reportedFrom stop ts := by
  cases ts with
  | nil => exact Nat.le_refl _
  | cons t ts =>
    rw [reportedFrom_cons]
    split
    · exact Nat.le_succ _
    · exact Nat.le_refl _

/-- What can be reported at a token begins before all that is left behind it. -/
theorem reportedFrom_le_front {t : Token} {ts us : List Token}
    (hts : Token.Ascending stop (t :: ts)) (hus : us <:+ ts) :
    reportedFrom stop (t :: ts) ≤ Token.front stop us := by
  have hlt := hts.start_lt hus
  rw [reportedFrom_cons]
  split <;> omega

/-- An item is reported in order, from its first token on, or behind it if that is a keyword. -/
theorem inOrder_item (hend : stop.kind = .endOfInput) {t : Token} {ts : List Token}
    (hts : Token.Ascending stop (t :: ts)) :
    ((Reader.item stop t).run ts).InOrder stop (reportedFrom stop (t :: ts)) Reader.Anything := by
  have hnext : t.span.start.offset < Token.front stop ts := hts.start_lt (List.suffix_refl ts)
  rw [reportedFrom_cons]
  -- a keyword begins an item, and any other token is itself the error
  split
  · next ht => exact Reader.reports_item hend ht ts hts.tail hnext
  · next ht =>
    rw [Token.beginsItem, Bool.or_eq_true, beq_iff_eq, beq_iff_eq, not_or] at ht
    unfold Reader.item
    split
    · next h => exact absurd h ht.1
    · next h => exact absurd h ht.2
    · exact Reader.inOrder_unexpected hts (Nat.le_refl _) (Nat.le_of_lt hnext) _

/-- Behind an error, reading resumes with an item. Nothing is reported at its first token, even if
this was the token of the error. -/
theorem lt_reportedFrom_resume {ts : List Token} (hts : Token.Ascending stop ts) {n : Nat}
    (hn : n ≤ Token.front stop ts) (hne : resume ts ≠ []) : n < reportedFrom stop (resume ts) := by
  have hfront := hts.front_le (List.dropWhile_suffix (!·.beginsItem))
  have hbegins := List.head?_dropWhile_not (fun t : Token => !t.beginsItem) ts
  rw [← resume] at hfront hbegins
  cases hus : resume ts with
  | nil => exact absurd hus hne
  | cons u us =>
    rw [hus] at hfront hbegins
    -- reading goes on in front of a keyword, and what is wrong there is behind it
    have hu : u.beginsItem = true := by simpa using hbegins
    rw [reportedFrom_cons, if_pos hu]
    exact Nat.lt_succ_of_le (hn.trans hfront)

/-- **The errors of a token sequence ascend**, and at the end of the input is what is reported to be
there. -/
theorem ascending_itemsFrom (hend : stop.kind = .endOfInput) {ts : List Token}
    (hts : Token.Ascending stop ts) :
    (itemsFrom stop ts).2.Pairwise (fun e f => e.start < f.start) ∧
      ∀ e ∈ (itemsFrom stop ts).2, reportedFrom stop ts ≤ e.start ∧
        (e.AtEnd → e.start = stop.span.start.offset) := by
  -- item by item: what is reported later begins where the item has left off
  induction ts using items_induction stop with
  | nil =>
    rw [itemsFrom]
    simp
  | ok t ts item hr ih =>
    have hsuffix := (Reader.item stop t).rest_suffix ts
    have hitem := inOrder_item hend hts
    -- the next item is read from the tokens that this one left, behind all its notes
    obtain ⟨hlater, hbounds⟩ := ih (hts.tail.of_suffix hsuffix)
    have hbehind : ∀ e ∈ (itemsFrom stop ((Reader.item stop t).run ts).rest).2,
        Token.front stop ((Reader.item stop t).run ts).rest ≤ e.start :=
      fun e he => (front_le_reportedFrom _).trans (hbounds e he).1
    rw [itemsFrom_of_ok hr]
    refine ⟨List.pairwise_append.mpr ⟨hitem.ascending, hlater, fun n hn e he => ?_⟩,
      List.forall_mem_append.mpr ⟨fun n hn => ?_, fun e he => ?_⟩⟩
    · exact Nat.lt_of_lt_of_le (hitem.notes n hn).2.1 (hbehind e he)
    · exact ⟨(hitem.notes n hn).1, fun hatEnd => absurd hatEnd (hitem.notes n hn).2.2⟩
    · exact ⟨(reportedFrom_le_front hts hsuffix).trans (hbehind e he), (hbounds e he).2⟩
  | error t ts e hr ih =>
    have hrest := hts.tail.of_suffix ((Reader.item stop t).rest_suffix ts)
    have hitem := inOrder_item hend hts
    obtain ⟨hlater, hbounds⟩ := ih (hts.tail.of_suffix (resume_rest_suffix stop t ts))
    obtain ⟨hge, hle, hnotes, hatEnd⟩ := hitem.error e hr
    -- reading may resume at the very token of the error, but nothing is reported there again
    have hbehind : ∀ f ∈ (itemsFrom stop (resume ((Reader.item stop t).run ts).rest)).2,
        e.start < f.start := by
      intro f hf
      refine Nat.lt_of_lt_of_le (lt_reportedFrom_resume hrest hle fun hnil => ?_)
        (hbounds f hf).1
      rw [hnil, itemsFrom] at hf
      cases hf
    rw [itemsFrom_of_error hr]
    refine ⟨List.pairwise_append.mpr ⟨hitem.ascending, List.pairwise_cons.mpr
      ⟨hbehind, hlater⟩, fun n hn => List.forall_mem_cons.mpr ⟨hnotes n hn, fun f hf => ?_⟩⟩,
      List.forall_mem_append.mpr ⟨fun n hn => ?_, List.forall_mem_cons.mpr
        ⟨⟨hge, hatEnd⟩, fun f hf => ?_⟩⟩⟩
    · exact (hnotes n hn).trans (hbehind f hf)
    · exact ⟨(hitem.notes n hn).1, fun hatEnd => absurd hatEnd (hitem.notes n hn).2.2⟩
    · exact ⟨hge.trans (Nat.le_of_lt (hbehind f hf)), (hbounds f hf).2⟩

end Program

/-! ### The errors of a source -/

/-- No lexeme of a text is the end of the input. -/
theorem Lexeme.Tiled.kind_ne_endOfInput {ls : List Lexeme} (h : Tiled ls) :
    ∀ l ∈ ls, l.kind ≠ .endOfInput := by
  induction h with
  | nil => simp
  | rule hl _ _ ih => exact List.forall_mem_cons.mpr ⟨hl.kind_ne.2, ih⟩
  | strays _ _ _ _ ih => exact List.forall_mem_cons.mpr ⟨by simp, ih⟩

namespace Source

variable (source : Source)

/-- The end of a source lies behind all its bytes. -/
theorem offset_endSpan : source.endSpan.start.offset = Text.byteLength source.text := by
  show (Position.first.through (Lexeme.scan source.text)).offset = _
  rw [Position.offset_through, (Lexeme.tiled_scan source.text).2]
  exact Nat.zero_add _

/-- **The tokens of a source ascend**, and the end comes last. -/
theorem ascending_tokens :
    Token.Ascending source.endToken (source.tokens.filter (!·.kind.isTrivia)) where
  ordered := by
    rw [← source.map_token_leaves]
    exact List.pairwise_map.mpr source.lined_leaves.ascending
  before_end := by
    intro t ht
    have hproper : t.span.start.offset < t.span.stop.offset := by
      rw [← source.map_token_leaves] at ht
      obtain ⟨l, hl, rfl⟩ := List.mem_map.mp ht
      exact source.lined_leaves.proper l hl
    -- a token has a text and ends within the source, so it begins before the end
    have hinside := (genuine_of_mem_tokens (List.mem_of_mem_filter ht)).1.inside
    show _ < source.endSpan.start.offset
    rw [source.offset_endSpan]
    omega
  not_end := by
    intro t ht
    have hlexeme : t.lexeme ∈ Lexeme.scan source.text := by
      rw [← Token.map_lexeme_place source.path Position.first (Lexeme.scan source.text)]
      exact List.mem_map_of_mem (List.mem_of_mem_filter ht)
    exact (Lexeme.tiled_scan source.text).1.kind_ne_endOfInput _ hlexeme

/-- **The syntax errors of a source ascend**, and those reported at the end of the input begin at
the end of the text. -/
theorem ascending_errors :
    (source.program.2.map SyntaxError.diagnostic).Pairwise Diagnostic.StartsLT ∧
      ∀ e ∈ source.program.2, e.AtEnd → e.start = Text.byteLength source.text := by
  obtain ⟨hascending, hbounds⟩ := Program.ascending_itemsFrom rfl source.ascending_tokens
  refine ⟨List.pairwise_map.mpr hascending, fun e he hatEnd => ?_⟩
  rw [(hbounds e he).2 hatEnd, ← source.offset_endSpan]
  rfl

end Source

end MatchCheck
