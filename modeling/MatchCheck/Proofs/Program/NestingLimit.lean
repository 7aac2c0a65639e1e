import MatchCheck.Proofs.Diagnostic.Codes
import MatchCheck.Proofs.Program.Depth
import MatchCheck.Proofs.Program.OpenLists

/-!
# The limit of nesting

The parser with a counter reads what the readers of the grammar read, which are told how many lists
may still be opened: where `k` more may be opened the counter is `k` below the limit
(`followsAt_expr`, `followsAt_pattern`). Between the pieces of a match no list is open, so that an
item that is read leaves the counter at zero. After an error it is set back.

`Source.counter_counts_open_lists` puts this together for whole sources.
-/

namespace MatchCheck

section Follows

variable {α : Type} {s : Nesting} {ts : List Token}

/-- The inside of an argument list is followed: with the counter one higher where one more list may
be opened, and otherwise the opening parenthesis is reported. -/
structure FollowsInside (s : Nesting) (inner : Counting (List α))
    (inner' : Span → Reader (List α)) : Prop where
  counted : s.lists < maxNesting → ∀ opening ts,
    FollowsAt s.opened s.opened inner (inner' opening) ts
  reported : s.lists = maxNesting → ∀ opening, inner' opening = Reader.fail (.tooDeep opening)

/-- Where no list may be opened, it does not matter what would be read inside of one. -/
theorem FollowsInside.of_full (h : s.lists = maxNesting) (inner : Counting (List α)) :
    FollowsInside s inner fun opening => Reader.fail (.tooDeep opening) where
  counted hlt := absurd h hlt.ne
  reported _ _ := rfl

/-! ### The readers of the grammar -/

section Grammar

variable {stop : Token} (hend : stop.kind = .endOfInput) (hs : s.Within)

include hs in
theorem followsAt_peek (ts : List Token) :
    FollowsAt s s (Counting.lift (Reader.peek stop)) (Reader.peek stop) ts :=
  Level.followsAt (.of_rest_eq fun _ => rfl) hs (.peek stop) ts

include hs in
theorem followsAt_next (kind : TokenKind) (ts : List Token) :
    FollowsAt s s (Counting.lift (Reader.next stop kind)) (Reader.next stop kind) ts :=
  Level.followsAt (.of_rest_eq fun _ => rfl) hs (.next stop kind) ts

include hend hs

/-- A token that is no parenthesis is read alike with the counter and without. -/
theorem followsAt_token {kind : TokenKind} (hkind : kind ≠ .endOfInput)
    (hlists : (s.step kind).lists = s.lists) (ts : List Token) :
    FollowsAt s (s.step kind) (Counting.lift (Reader.token stop kind)) (Reader.token stop kind)
      ts :=
  (level_expect hend hkind hlists _).followsAt hs
    (Reader.blames_expect (shallow_errorSort hend) _ _) ts

theorem followsAt_ident (expected : Expectation) (ts : List Token) :
    FollowsAt s s (Counting.lift (Reader.ident stop expected)) (Reader.ident stop expected) ts :=
  (level_ident hend expected).followsAt hs (Reader.blames_ident (shallow_errorSort hend) _) ts

/-- What stands inside an argument list is followed if its elements are. -/
theorem followsAt_argumentList {element : Counting α} {element' : Reader α}
    (h : ∀ ts, FollowsAt s s element element' ts) (ts : List Token) :
    FollowsAt s s (Counting.argumentList stop element) (Reader.argumentList stop element') ts := by
  refine (followsAt_next hs .rightParen ts).bind fun b _ => ?_
  split
  · exact .pure hs []
  · refine (h _).bind fun first _ => (FollowsAt.many hs (fun ts => ?_) _).bind fun others _ =>
      .pure hs (first :: others)
    refine (followsAt_next hs .comma ts).bind fun b hb => ?_
    -- the test has said that a comma comes next, so that it can be passed over
    cases hb
    split
    · next hcomma =>
      exact (followsAt_skip hend (by decide) hs rfl (beq_iff_eq.mp hcomma)).bind fun _ _ =>
        (h _).bind fun _ _ => .pure hs _
    · exact .pure hs none

/-- Below the limit, the inside of a list is read with the counter one higher. -/
theorem followsInside_argumentList (hlt : s.lists < maxNesting) {element : Counting α}
    {element' : Reader α} (h : ∀ ts, FollowsAt s.opened s.opened element element' ts) :
    FollowsInside s (Counting.argumentList stop element)
      fun _ => Reader.argumentList stop element' where
  counted _ _ := followsAt_argumentList hend (hs.opened hlt) h
  reported heq := absurd heq hlt.ne

variable (hblocks : s.blocks ≤ 1)
include hblocks

/-- **Argument lists.** They are followed if what is inside is. -/
theorem followsAt_arguments (name : Ident) {inner : Counting (List α)}
    {inner' : Span → Reader (List α)}
    (hinner : FollowsInside s inner inner') (ts : List Token) :
    FollowsAt s s (Counting.arguments stop name inner) (Reader.arguments stop name inner') ts := by
  refine (followsAt_peek hs ts).bind fun opening hopening => ?_
  cases hopening
  split
  · next hkind =>
    obtain ⟨t, rest, rfl, ht⟩ := exists_cons_of_kind hend (by decide) hkind
    -- there is room for one more list, or the parenthesis is the one that is refused
    rcases Int.lt_or_eq_of_le hs.le with hlt | heq
    · exact (followsAt_enter ht hblocks hs hlt rest).bind fun _ _ =>
        (hinner.counted hlt t.span _).bind fun args _ =>
        (followsAt_leave hend hblocks hs hlt _).bind fun close _ => .pure hs (args, close.span)
    · have hfail := hinner.reported heq t.span
      show FollowsAt s s _ (Reader.skip >>= fun _ => inner' t.span >>= _) (t :: rest)
      rw [hfail]
      exact followsAt_enter_full ht hblocks hs heq _ _ rest
  · exact .pure hs _

/-- An expression is followed if the inside of its argument list is. -/
theorem followsAt_exprWith {inner : Counting (List Expr)} {inner' : Span → Reader (List Expr)}
    (hinner : FollowsInside s inner inner') (ts : List Token) :
    FollowsAt s s (Counting.exprWith stop inner) (Reader.exprWith stop inner') ts :=
  (followsAt_ident hend hs _ ts).bind fun name _ =>
    (followsAt_arguments hend hs hblocks name hinner _).bind fun _ _ => .pure hs _

/-- So is a pattern. -/
theorem followsAt_patternWith {inner : Counting (List Pattern)}
    {inner' : Span → Reader (List Pattern)}
    (hinner : FollowsInside s inner inner') (ts : List Token) :
    FollowsAt s s (Counting.patternWith stop inner) (Reader.patternWith stop inner') ts := by
  refine (followsAt_peek hs ts).bind fun t ht => ?_
  cases ht
  -- an underscore opens no list
  split
  · next hkind =>
    exact (followsAt_skip hend (by decide) hs rfl hkind).bind fun _ _ => .pure hs _
  · exact (followsAt_ident hend hs _ _).bind fun name _ =>
      (followsAt_arguments hend hs hblocks name hinner _).bind fun _ _ => .pure hs _

end Grammar

/-! ### Matches and items -/

section Items

variable {stop : Token} (hend : stop.kind = .endOfInput) {k bound : Nat}
include hend

omit hend in
/-- **Readers of a bounded depth.** If a reader is followed where no list may be opened, and at one
depth more whenever it is inside of a list, then it is followed at each depth `k` where `k` more
lists may be opened. -/
theorem followsAt_of_depth {counting : Nat → Counting α} {reader : Nat → Reader α}
    (hfull : ∀ (s : Nesting) bound, s.Within → s.blocks ≤ 1 → s.lists = maxNesting →
      ∀ ts, FollowsAt s s (counting bound) (reader 0) ts)
    (hnested : ∀ (s : Nesting) bound k, s.Within → s.blocks ≤ 1 → s.lists < maxNesting →
      (∀ ts, FollowsAt s.opened s.opened (counting bound) (reader k) ts) →
      ∀ ts, FollowsAt s s (counting (bound + 1)) (reader (k + 1)) ts)
    (hbound : k ≤ bound) (hs : s.Within) (hblocks : s.blocks ≤ 1)
    (hk : s.lists + k = maxNesting) (ts : List Token) :
    FollowsAt s s (counting bound) (reader k) ts := by
  -- the levels that are left and the lists that are open make up the limit
  induction k generalizing s bound ts with
  | zero => exact hfull s bound hs hblocks (by omega) ts
  | succ k ih =>
    have hlt : s.lists < maxNesting := by omega
    have hopened : s.opened.lists + k = maxNesting := by
      show s.lists + 1 + k = maxNesting
      omega
    cases bound with
    | zero => exact absurd hbound (Nat.not_succ_le_zero k)
    | succ bound =>
      exact hnested s bound k hs hblocks hlt
        (ih (Nat.le_of_succ_le_succ hbound) (hs.opened hlt) hblocks hopened) ts

/-- Where `k` more lists may be opened, an expression is read as one that nests at most `k` deep. -/
theorem followsAt_expr (hbound : k ≤ bound) (hs : s.Within) (hblocks : s.blocks ≤ 1)
    (hk : s.lists + k = maxNesting) (ts : List Token) :
    FollowsAt s s (Counting.expr stop bound) (Reader.expr stop k) ts := by
  refine followsAt_of_depth (fun s bound hs hblocks hfull => ?_)
    (fun s bound k hs hblocks hlt h => ?_) hbound hs hblocks hk ts
  · cases bound <;> exact followsAt_exprWith hend hs hblocks (.of_full hfull _)
  · exact followsAt_exprWith hend hs hblocks (followsInside_argumentList hend hs hlt h)

/-- Where `k` more lists may be opened, a pattern is read as one that nests at most `k` deep. -/
theorem followsAt_pattern (hbound : k ≤ bound) (hs : s.Within) (hblocks : s.blocks ≤ 1)
    (hk : s.lists + k = maxNesting) (ts : List Token) :
    FollowsAt s s (Counting.pattern stop bound) (Reader.pattern stop k) ts := by
  refine followsAt_of_depth (fun s bound hs hblocks hfull => ?_)
    (fun s bound k hs hblocks hlt h => ?_) hbound hs hblocks hk ts
  · cases bound <;> exact followsAt_patternWith hend hs hblocks (.of_full hfull _)
  · exact followsAt_patternWith hend hs hblocks (followsInside_argumentList hend hs hlt h)

omit hend in
/-- No list is open between the pieces of a match. -/
theorem Nesting.within_zero (blocks : Nat) : (⟨blocks, 0⟩ : Nesting).Within :=
  ⟨Int.le_refl 0, Int.natCast_nonneg maxNesting⟩

/-- A round of arms begins and ends with no list open. -/
theorem followsAt_armRound (hbound : maxNesting ≤ bound) (ts : List Token) :
    FollowsAt ⟨1, 0⟩ ⟨1, 0⟩ (Counting.armRound stop bound) (Reader.armRound stop) ts := by
  have hs := Nesting.within_zero 1
  -- a block has no argument lists, whatever it holds
  have harm : ∀ ts, FollowsAt ⟨1, 0⟩ ⟨1, 0⟩ (Counting.arm stop bound) (Reader.arm stop) ts := by
    intro ts
    refine (followsAt_pattern hend hbound hs (Nat.le_refl 1) (Int.zero_add _) ts).bind fun _ _ => ?_
    refine (followsAt_token hend hs (by decide) rfl _).bind fun _ _ => ?_
    exact ((level_block hend 0).followsAt hs (Reader.blames_block (shallow_errorSort hend)) _).bind
      fun _ _ => .pure hs _
  refine (followsAt_peek hs ts).bind fun t _ => ?_
  split
  · exact .pure hs none
  · refine (harm _).bind fun a _ => (followsAt_next hs .comma _).bind fun b hb => ?_
    cases hb
    split
    · next hcomma =>
      exact (followsAt_skip hend (by decide) hs rfl (beq_iff_eq.mp hcomma)).bind fun _ _ =>
        .pure hs (some a)
    · exact .pure hs (some a)

/-- **A match is followed**, from no list open to no list open. -/
theorem followsAt_matchExpr (hbound : maxNesting ≤ bound) (keyword : Span) (ts : List Token) :
    FollowsAt ⟨0, 0⟩ ⟨0, 0⟩ (Counting.matchExpr stop bound keyword) (Reader.matchExpr stop keyword)
      ts := by
  have hs := Nesting.within_zero
  refine (followsAt_expr hend hbound (hs 0) (Nat.zero_le 1) (Int.zero_add _) ts).bind fun _ _ => ?_
  refine (followsAt_token hend (hs 0) (by decide) rfl _).bind fun _ _ => ?_
  refine (FollowsAt.many (hs 1) (followsAt_armRound hend hbound) _).bind fun _ _ => ?_
  exact (followsAt_token hend (hs 1) (by decide) rfl _).bind fun _ _ => .pure (hs 0) _

end Items

end Follows

/-! ### Rounds -/

/-- Only a match has argument lists. -/
theorem openLists_of_ne {t : Token} (h : t.kind ≠ .matchWord) (ts : List Token) :
    openLists t ts = 0 :=
  if_neg h

theorem openLists_of_eq {t : Token} (h : t.kind = .matchWord) (ts : List Token) :
    openLists t ts = (Nesting.steps ⟨0, 0⟩ ts).lists :=
  if_pos h

/-- Nothing is counted in an item that is no match. -/
theorem Counting.item_of_ne {t : Token} (h : t.kind ≠ .matchWord) (stop : Token) (bound : Nat) :
    Counting.item stop bound t = Counting.lift (Reader.item stop t) := by
  unfold Counting.item Reader.item
  cases hkind : t.kind with
  | matchWord => exact absurd hkind h
  | _ => rfl

section Rounds

/-- Behind an item the next round starts with the counter that the item left. -/
theorem rounds_of_ok {stop t : Token} {bound : Nat} {n : Int} {ts : List Token} {i : Item}
    (h : ((Counting.item stop bound t).run n ts).reply.result = .ok i) :
    rounds stop bound n (t :: ts) = ⟨t, ts, n, (Counting.item stop bound t).run n ts⟩ ::
      rounds stop bound ((Counting.item stop bound t).run n ts).counter
        ((Counting.item stop bound t).run n ts).reply.rest := by
  rw [rounds]
  simp only [h]

/-- Behind an error the counter is set to zero again. -/
theorem rounds_of_error {stop t : Token} {bound : Nat} {n : Int} {ts : List Token}
    {e : SyntaxError} (h : ((Counting.item stop bound t).run n ts).reply.result = .error e) :
    rounds stop bound n (t :: ts) = ⟨t, ts, n, (Counting.item stop bound t).run n ts⟩ ::
      rounds stop bound 0 (resume ((Counting.item stop bound t).run n ts).reply.rest) := by
  rw [rounds]
  simp only [h]

variable {stop : Token} (hend : stop.kind = .endOfInput) {bound : Nat}

include hend in
/-- An item that is no match never nests too deep. -/
theorem shallow_item {t : Token} (h : t.kind ≠ .matchWord) :
    (Reader.item stop t).Blames (fun _ => True) SyntaxError.Shallow := by
  have hsort := shallow_errorSort hend
  unfold Reader.item
  split
  · exact (Reader.blames_enumDecl hsort _).andThen fun _ => .pure _
  · next hkind => exact absurd hkind h
  · exact .fail (hsort.unexpected _ _ trivial)

variable (hbound : maxNesting ≤ bound)
include hend hbound

/-- **Items.** Reading an item from the counter at zero keeps the counter right, and if the item is
read the counter is back at zero. -/
theorem traced_item (t : Token) (ts : List Token) :
    ((Counting.item stop bound t).run 0 ts).reply = (Reader.item stop t).run ts ∧
      ∃ front, ts = front ++ ((Reader.item stop t).run ts).rest ∧
        Trace (openLists t) front ((Counting.item stop bound t).run 0 ts) ∧
        ∀ i, ((Reader.item stop t).run ts).result = .ok i → openLists t front = 0 := by
  by_cases hmatch : t.kind = .matchWord
  · have hitem : FollowsAt ⟨0, 0⟩ ⟨0, 0⟩ (Counting.item stop bound t) (Reader.item stop t) ts := by
      unfold Counting.item Reader.item
      rw [hmatch]
      exact (followsAt_matchExpr hend hbound t.span ts).bind fun _ _ =>
        .pure (Nesting.within_zero 0) _
    obtain ⟨hreply, front, hts, htrace, hok⟩ := hitem
    have hcount : openLists t = fun f => (Nesting.steps ⟨0, 0⟩ f).lists :=
      funext (openLists_of_eq hmatch)
    rw [hcount]
    exact ⟨hreply, front, hts, htrace, fun i hi => congrArg Nesting.lists (hok i hi)⟩
  · -- without `match` in front nothing is counted
    obtain ⟨front, hfront⟩ := (Reader.item stop t).rest_suffix ts
    rw [Counting.item_of_ne hmatch]
    refine ⟨rfl, front, hfront.symm, .lift hfront.symm ?_ (Int.le_refl 0) ?_
      (shallow_item hend hmatch), fun _ _ => openLists_of_ne hmatch front⟩
    · exact fun f _ => openLists_of_ne hmatch f
    · exact Int.natCast_nonneg maxNesting

/-- **Rounds.** The rounds read what a token sequence is read as, each of them starts with the
counter at zero, and the counter is right in each. -/
theorem traced_rounds (ts : List Token) :
    Program.itemsFrom stop ts = ((rounds stop bound 0 ts).filterMap Round.item?,
        (rounds stop bound 0 ts).flatMap Round.errors) ∧
      ∀ r ∈ rounds stop bound 0 ts, r.start = 0 ∧
        ∃ front, r.behind = front ++ r.outcome.reply.rest ∧
          Trace (openLists r.first) front r.outcome := by
  -- item by item, which is round by round
  induction ts using Program.items_induction stop with
  | nil =>
    rw [rounds, Program.itemsFrom]
    exact ⟨rfl, List.forall_mem_nil _⟩
  | ok t ts i hr ih =>
    obtain ⟨hreply, front, hts, htrace, hok⟩ := traced_item hend hbound t ts
    rw [← hreply] at hts
    -- the counter is back at zero behind an item, and the next round starts with it
    have hcounter : ((Counting.item stop bound t).run 0 ts).counter = 0 :=
      htrace.counter_eq.trans (hok i hr)
    obtain ⟨hprogram, hrounds⟩ := ih
    rw [Program.itemsFrom_of_ok hr, rounds_of_ok (hreply ▸ hr), hcounter, hreply, hprogram]
    refine ⟨?_, List.forall_mem_cons.mpr ⟨⟨rfl, front, hts, htrace⟩, hrounds⟩⟩
    simp [Round.item?, Round.errors, hreply, hr, Except.toOption]
  | error t ts e hr ih =>
    obtain ⟨hreply, front, hts, htrace, -⟩ := traced_item hend hbound t ts
    rw [← hreply] at hts
    obtain ⟨hprogram, hrounds⟩ := ih
    rw [Program.itemsFrom_of_error hr, rounds_of_error (hreply ▸ hr), hreply, hprogram]
    refine ⟨?_, List.forall_mem_cons.mpr ⟨⟨rfl, front, hts, htrace⟩, hrounds⟩⟩
    simp [Round.item?, Round.errors, hreply, hr, Except.toOption]

end Rounds

/-- In a round that read the tokens `front`, the counter starts at zero. At every place on the way
and at the end it is the number of argument lists that are open there, and never below zero. -/
structure Round.CountsLists (r : Round) (front : List Token) : Prop where
  read_eq : r.behind = front ++ r.outcome.reply.rest
  start_eq : r.start = 0
  seen : ∀ f back, front = f ++ back → back ≠ [] →
    ∃ m ∈ r.outcome.moments, m.left = back ++ r.outcome.reply.rest
  counter_of_moment : ∀ m ∈ r.outcome.moments, ∃ f back, front = f ++ back ∧
    m.left = back ++ r.outcome.reply.rest ∧ m.counter = openLists r.first f ∧ 0 ≤ m.counter
  counter_eq : r.outcome.counter = openLists r.first front
  nonneg : 0 ≤ r.outcome.counter

/-- A trace is what is asked of the counter. -/
theorem Trace.countsLists {r : Round} {front : List Token}
    (h : Trace (openLists r.first) front r.outcome)
    (hread : r.behind = front ++ r.outcome.reply.rest) (hstart : r.start = 0) :
    r.CountsLists front where
  read_eq := hread
  start_eq := hstart
  seen := h.seen
  counter_of_moment := by
    intro m hm
    -- each moment of a round has a part of what was read in front of it
    obtain ⟨f, back, rfl, hleft, hcounter⟩ := h.counter_of_moment m hm
    refine ⟨f, back, rfl, hleft, hcounter, ?_⟩
    rw [hcounter]
    exact h.nonneg f (List.prefix_append f back)
  counter_eq := h.counter_eq
  nonneg := by
    rw [h.counter_eq]
    exact h.nonneg front (List.prefix_refl front)

/-- A round passes over a parenthesis that opens an argument list where as many are open as may
be. -/
def Round.OpensOneTooMany (r : Round) : Prop :=
  ∃ front opening back, r.behind = front ++ opening :: back ∧ r.outcome.reply.rest <:+ back ∧
    opening.kind = .leftParen ∧ openLists r.first front = maxNesting ∧
    openLists r.first (front ++ [opening]) = maxNesting + 1

/-- Only one kind of error has the code of too deep a nesting. -/
theorem SyntaxError.code_eq_nestingTooDeep_iff (e : SyntaxError) :
    e.diagnostic.code = Code.nestingTooDeep.text ↔ ¬ e.Shallow := by
  rw [e.code_diagnostic, Code.text_inj]
  -- of the four kinds of errors three are about something else
  cases e with
  | unexpected expected found =>
    refine iff_of_false ?_ (not_not_intro (shallow_unexpected expected found))
    rcases unexpectedCode_cases expected found with h | h | h <;> simp [code, h]
  | unclosedBlock opening stop =>
    exact iff_of_false (by simp [code]) (not_not_intro (shallow_unclosedBlock opening stop))
  | tooManyFields ctor extra =>
    exact iff_of_false (by simp [code]) (not_not_intro (shallow_tooManyFields ctor extra))
  | tooDeep opening => exact iff_of_true rfl fun h => h opening rfl

/-- **Too deep a nesting is reported where one list too many is opened**, and nowhere else. -/
theorem Trace.nestingTooDeep_iff {r : Round} {front : List Token}
    (h : Trace (openLists r.first) front r.outcome)
    (hread : r.behind = front ++ r.outcome.reply.rest) :
    (∃ e ∈ r.errors, e.diagnostic.code = Code.nestingTooDeep.text) ↔ r.OpensOneTooMany := by
  constructor
  · -- the error can only be the last one, since notes are about other things
    rintro ⟨e, he, hcode⟩
    have hdeep := e.code_eq_nestingTooDeep_iff.mp hcode
    have hresult : r.outcome.reply.result = .error e := by
      rcases List.mem_append.mp he with he | he
      · exact absurd (h.notes e he) hdeep
      · split at he
        · cases he
        · next e' hresult => rw [hresult, List.mem_singleton.mp he]
    cases h.stops with
    | within _ hshallow => exact absurd (hshallow e hresult) hdeep
    | @tooDeep f opening hfront hkind hfull hover _ _ =>
      refine ⟨f, opening, r.outcome.reply.rest, ?_, List.suffix_refl _, hkind, hfull,
        hfront ▸ hover⟩
      rw [hread, hfront, List.append_assoc]
      rfl
  · rintro ⟨f, opening, back, hbehind, ⟨more, rfl⟩, -, -, hover⟩
    -- the parenthesis is among the tokens that were read
    have hread' : front ++ r.outcome.reply.rest =
        f ++ [opening] ++ more ++ r.outcome.reply.rest := by
      rw [← hread, hbehind]
      simp
    have hfront : front = f ++ [opening] ++ more := List.append_cancel_right hread'
    cases h.stops with
    | within hle _ =>
      have hle' := hle (f ++ [opening]) (hfront ▸ List.prefix_append _ more)
      omega
    | @tooDeep _ opening' _ _ _ _ _ hresult =>
      refine ⟨.tooDeep opening'.span, List.mem_append_right _ ?_, rfl⟩
      rw [hresult]
      exact List.mem_singleton_self _

/-! ### How deep expressions nest -/

mutual

/-- The number of argument lists that an expression nests. -/
def Expr.depth : Expr → Nat
  | .apply _ _ args => Expr.depthOver args

/-- The number of argument lists that a constructor over these arguments nests. -/
def Expr.depthOver : List Expr → Nat
  | [] => 0
  | e :: es => max (e.depth + 1) (Expr.depthOver es)

end

/-- A constructor nests one list more than its arguments, at most. -/
theorem Expr.depthOver_le_succ {es : List Expr} {n : Nat} (h : ∀ e ∈ es, e.depth ≤ n) :
    Expr.depthOver es ≤ n + 1 := by
  induction es with
  | nil => exact Nat.zero_le _
  | cons e es ih =>
    obtain ⟨he, hes⟩ := List.forall_mem_cons.mp h
    exact Nat.max_le.mpr ⟨Nat.succ_le_succ he, ih hes⟩

namespace Reader

variable {T : Token → Prop} {stop : Token}

/-- An expression is a constructor over what is read inside its parentheses. -/
theorem gives_exprWith {inner : Span → Reader (List Expr)} {n : Nat}
    (h : ∀ s, Gives T (fun args => Expr.depthOver args ≤ n) (inner s)) :
    Gives T (fun e => e.depth ≤ n) (exprWith stop inner) := by
  refine (Gives.trivial _).bind fun name _ => ?_
  -- without an argument list there is nothing to nest
  have hargs : Gives T (fun x => Expr.depthOver x.1 ≤ n) (arguments stop name inner) := by
    refine (Gives.trivial _).bind fun opening _ => ?_
    split
    · exact Gives.skip ((h _).bind fun _ hargs => (Gives.trivial _).bind fun _ _ => .pure hargs)
    · exact .pure (Nat.zero_le n)
  exact hargs.bind fun x hx => .pure hx

/-- **The reader of expressions keeps to its limit.** -/
theorem gives_expr (n : Nat) : Gives T (fun e => e.depth ≤ n) (expr stop n) := by
  -- on the levels that are left: an argument list takes one of them
  induction n with
  | zero => exact gives_exprWith fun _ => .fail _
  | succ n ih =>
    refine gives_exprWith fun _ ts hts args hargs => ?_
    exact Expr.depthOver_le_succ (gives_argumentList ih ts hts args hargs)

/-- The expression of a match keeps to the limit. -/
theorem gives_scrutinee (keyword : Span) :
    Gives T (fun m => m.scrutinee.depth ≤ maxNesting) (matchExpr stop keyword) :=
  (gives_expr _).bind fun _ hscrutinee => (Gives.trivial _).bind fun _ _ =>
    (Gives.trivial _).bind fun _ _ => (Gives.trivial _).bind fun _ _ => .pure hscrutinee

end Reader

/-- **No scrutinee of a source nests too deep.** -/
theorem Source.depth_scrutinee_le {source : Source} {m : MatchExpr}
    (hm : m ∈ source.program.1.matchExprs) : m.scrutinee.depth ≤ maxNesting :=
  Program.forall_matchExprs (T := fun _ => True) Reader.gives_scrutinee (fun _ _ => trivial) m hm

/-- **One counter bounds the nesting.** A parser that keeps one counter of open argument lists, with
no other bound to its recursion than one that is great enough, reads every source as its program and
reports the same errors. In every round it starts with the counter at zero, and at every place it
passes the counter is the number of argument lists that are open in the item. A round reports that
lists nest too deep exactly if it passes over a parenthesis that opens a list within `maxNesting`
others. So no expression that is matched and no pattern nests deeper. -/
theorem Source.counter_counts_open_lists (source : Source) (more : Nat) :
    source.program = (⟨(source.rounds (maxNesting + more)).filterMap Round.item?⟩,
        (source.rounds (maxNesting + more)).flatMap Round.errors) ∧
      (∀ r ∈ source.rounds (maxNesting + more), (∃ front, r.CountsLists front) ∧
        ((∃ e ∈ r.errors, e.diagnostic.code = Code.nestingTooDeep.text) ↔ r.OpensOneTooMany)) ∧
      ∀ m ∈ source.program.1.matchExprs, m.scrutinee.depth ≤ maxNesting ∧
        ∀ a ∈ m.arms, a.pattern.depth ≤ maxNesting := by
  have hend : source.endToken.kind = .endOfInput := rfl
  -- the readers recurse on a bound, which is never used up before the counter is at its limit
  obtain ⟨hprogram, hrounds⟩ := traced_rounds hend (Nat.le_add_right maxNesting more)
    (source.tokens.filter (!·.kind.isTrivia))
  refine ⟨?_, fun r hr => ?_, fun m hm => ?_⟩
  · unfold Source.program Program.ofTokens
    rw [hprogram]
    rfl
  · obtain ⟨hstart, front, hread, htrace⟩ := hrounds r hr
    exact ⟨⟨front, htrace.countsLists hread hstart⟩, htrace.nestingTooDeep_iff hread⟩
  · exact ⟨Source.depth_scrutinee_le hm, fun a ha => Source.depth_pattern_le hm ha⟩

end MatchCheck
