import MatchCheck.Proofs.Program.Reader

/-!
# Recovery is local

Reading a token sequence behind which further items stand gives the same as reading the two
apart: first the items and errors of the front part, then those of the rest. The front part may
hold any number of broken items. What it may not do is to end inside an item, which shows as an
error at the end of the input (`SyntaxError.AtEnd`).

A reader decides by looking at the next token. It sees the end of the front part only if it looks
at the next token where none is left, and then it finds either the end of the input or, with the
further items behind it, a token that begins an item. Almost no reader tells these two apart: both
are of no kind that is asked for inside an item (`Seam.kind_headD_ne`). So a reader either gives
the same reply with the further tokens left over, or it stops with an error at the end. This is
`Extends false`, and it is kept by sequencing and repetition.

Two readers do tell them apart, and both are rounds of a repetition: behind a constructor a line
break may do for a comma, and the arms of a match also end at the end of the input. These rounds
may have read everything and not know yet that the item goes on. `Extends true` admits this third
outcome, and it is gone as soon as the closing brace is asked for.
-/

namespace MatchCheck

/-- The error is reported at the end of the input. -/
def SyntaxError.AtEnd (e : SyntaxError) : Prop :=
  e.diagnostic.code = Code.unexpectedEnd.text

/-- Whoever expects something at the end reports the end. -/
theorem SyntaxError.atEnd_unexpected {expected : Expectation} {found : Token}
    (h : found.kind = .endOfInput) : (unexpected expected found).AtEnd := by
  change (unexpectedCode expected found).text = Code.unexpectedEnd.text
  rw [unexpectedCode, if_pos h]

theorem SyntaxError.atEnd_unclosedBlock (opening stop : Span) :
    (unclosedBlock opening stop).AtEnd := rfl

/-- The kinds of tokens that neither begin an item nor stand for the end of the input. -/
def TokenKind.isInner : TokenKind → Bool
  | .enumWord | .matchWord | .endOfInput => false
  | _ => true

/-- Further tokens `B` stand behind a token sequence. They begin with an item if there are any.
The sequence alone ends with `stop`, and with the further tokens it ends with `stop'`. -/
structure Seam (stop stop' : Token) (B : List Token) : Prop where
  stop_kind : stop.kind = .endOfInput
  stop'_kind : stop'.kind = .endOfInput
  begins : ∀ t ∈ B.head?, t.beginsItem = true

namespace Seam

variable {stop stop' : Token} {B : List Token}

/-- Neither the end of the input nor what follows is of an inner kind. -/
theorem kind_headD_ne (hs : Seam stop stop' B) {kind : TokenKind} (hk : kind.isInner = true) :
    (B.headD stop').kind ≠ kind := by
  intro heq
  rw [← heq] at hk
  cases B with
  | nil =>
    rw [show ([].headD stop').kind = .endOfInput from hs.stop'_kind] at hk
    exact absurd hk (by decide)
  | cons t ts =>
    -- what follows begins with an item, and its keyword is of no inner kind
    have hbegins : t.beginsItem = true := hs.begins t rfl
    rw [Token.beginsItem, Bool.or_eq_true, beq_iff_eq, beq_iff_eq] at hbegins
    obtain hkind | hkind := hbegins
    · rw [show ((t :: ts).headD stop').kind = .enumWord from hkind] at hk
      exact absurd hk (by decide)
    · rw [show ((t :: ts).headD stop').kind = .matchWord from hkind] at hk
      exact absurd hk (by decide)

/-- The end of the first part is of no inner kind. -/
theorem kind_stop_ne (hs : Seam stop stop' B) {kind : TokenKind} (hk : kind.isInner = true) :
    stop.kind ≠ kind := by
  rw [hs.stop_kind]
  rintro rfl
  exact absurd hk (by decide)

end Seam

namespace Reply

variable {α β : Type}

/-- The reply with further tokens left. -/
def followedBy (B : List Token) (r : Reply α) : Reply α :=
  ⟨r.notes, r.rest ++ B, r.result⟩

/-- Reading stopped at the end of the input. -/
def Starved (r : Reply α) : Prop :=
  ∃ e, r.result = .error e ∧ e.AtEnd

/-- Reading succeeded and nothing is left. -/
def Exhausted (r : Reply α) : Prop :=
  r.rest = [] ∧ ∃ a, r.result = .ok a

/-- Behind the end of the input nothing is read. -/
theorem Starved.andThen {r : Reply α} (h : r.Starved) (f : α → List Token → Reply β) :
    (r.andThen f).Starved := by
  obtain ⟨e, he, hend⟩ := h
  refine ⟨e, ?_, hend⟩
  unfold Reply.andThen
  rw [he]

/-- The first reply stops at the end of the input, or the second one is the first with `B` left
over, or, where this is admitted, the first one has read everything. -/
def CarriedOn (m : Bool) (B : List Token) (r s : Reply α) : Prop :=
  r.Starved ∨ s = r.followedBy B ∨ (m = true ∧ r.Exhausted)

theorem CarriedOn.done {m : Bool} {B : List Token} (a : α) (ts : List Token) :
    CarriedOn m B ⟨[], ts, .ok a⟩ ⟨[], ts ++ B, .ok a⟩ :=
  Or.inr (Or.inl rfl)

/-- **One reply behind the other.** Where the first one has read everything, the second one is given
at the end of the input. -/
theorem CarriedOn.andThen {m n : Bool} {B : List Token} {r s : Reply α}
    {f g : α → List Token → Reply β} (h : CarriedOn n B r s)
    (hf : ∀ a, CarriedOn m B (f a r.rest) (g a (r.rest ++ B)))
    (hend : n = true → ∀ a, (f a []).Starved ∨ (m = true ∧ (f a []).Exhausted)) :
    CarriedOn m B (r.andThen f) (s.andThen g) := by
  -- three outcomes of the first reply: cut off, the same with more left, or everything read
  obtain hstarved | rfl | ⟨hn, hrest, a, ha⟩ := h
  · exact Or.inl (hstarved.andThen f)
  · cases hresult : r.result with
    | error e =>
      refine Or.inr (Or.inl ?_)
      rw [andThen_of_error hresult,
        andThen_of_error (show (r.followedBy B).result = .error e from hresult)]
      rfl
    | ok a =>
      -- the second reply starts at the same token in both cases
      rw [andThen_of_ok hresult,
        andThen_of_ok (show (r.followedBy B).result = .ok a from hresult)]
      obtain ⟨e, he, hatEnd⟩ | hext | ⟨hm, hrest, hok⟩ := hf a
      · exact Or.inl ⟨e, he, hatEnd⟩
      · refine Or.inr (Or.inl ?_)
        rw [show (r.followedBy B).rest = r.rest ++ B from rfl, hext]
        rfl
      · exact Or.inr (Or.inr ⟨hm, hrest, hok⟩)
  · rw [andThen_of_ok ha, hrest]
    obtain ⟨e, he, hatEnd⟩ | ⟨hm, hrest, hok⟩ := hend hn a
    · exact Or.inl ⟨e, he, hatEnd⟩
    · exact Or.inr (Or.inr ⟨hm, hrest, hok⟩)

end Reply

namespace Reader

variable {α β : Type} {stop stop' : Token} {B : List Token} {m : Bool}

/-! ### Readers in front of further tokens -/

/-- In front of `B`, the second reader carries on what the first one does with `ts` alone. -/
def ExtendsAt (m : Bool) (B : List Token) (p q : Reader α) (ts : List Token) : Prop :=
  (p.run ts).CarriedOn m B (q.run (ts ++ B))

/-- The second reader carries on the first one in front of `B`, whatever is read. -/
def Extends (m : Bool) (B : List Token) (p q : Reader α) : Prop :=
  ∀ ts, ExtendsAt m B p q ts

theorem Extends.pure (a : α) : Extends m B (pure a) (pure a) :=
  fun _ => Or.inr (Or.inl rfl)

theorem Extends.fail (e : SyntaxError) : Extends m B (fail e : Reader α) (Reader.fail e) :=
  fun _ => Or.inr (Or.inl rfl)

theorem Extends.note (e : SyntaxError) : Extends m B (Reader.note e) (Reader.note e) :=
  fun _ => Or.inr (Or.inl rfl)

/-- A reader that never ends early may be put where ending early is admitted. -/
theorem Extends.loosen {p q : Reader α} (h : Extends false B p q) : Extends m B p q := by
  intro ts
  obtain hstarved | heq | ⟨hfalse, -⟩ := h ts
  · exact Or.inl hstarved
  · exact Or.inr (Or.inl heq)
  · exact absurd hfalse (by simp)

/-- **Sequencing.** Where the first part has read everything, the second part is asked at the end
of the input. -/
theorem Extends.bind {n : Bool} {p q : Reader α} {f g : α → Reader β} (hp : Extends n B p q)
    (hf : ∀ a, Extends m B (f a) (g a))
    (hend : n = true → ∀ a, ((f a).run []).Starved ∨ (m = true ∧ ((f a).run []).Exhausted)) :
    Extends m B (p >>= f) (q >>= g) :=
  fun ts => Reply.CarriedOn.andThen (hp ts) (fun a => hf a _) hend

/-- Sequencing behind a part that never ends early. -/
theorem Extends.andThen {p q : Reader α} {f g : α → Reader β} (hp : Extends false B p q)
    (hf : ∀ a, Extends m B (f a) (g a)) : Extends m B (p >>= f) (q >>= g) :=
  hp.bind hf fun hfalse => absurd hfalse (by simp)

/-! ### Looking at the next token -/

/-- What a decision about the next token needs: to be carried on where a token is there, and at
the end of the input, where the next token is `stop` or whatever comes first behind. -/
theorem Extends.peek {f g : Token → Reader α}
    (hcons : ∀ t ts, ExtendsAt m B (f t) (g t) (t :: ts))
    (hnil : ((f stop).run []).CarriedOn m B ((g (B.headD stop')).run B)) :
    Extends m B (Reader.peek stop >>= f) (Reader.peek stop' >>= g) := by
  intro ts
  cases ts with
  | nil => exact hnil
  | cons t ts => exact hcons t ts

/-- Passing over a token that is there makes no difference. -/
theorem ExtendsAt.skip {p q : Reader α} {t : Token} {ts : List Token}
    (h : ExtendsAt m B p q ts) :
    ExtendsAt m B (Reader.skip >>= fun _ => p) (Reader.skip >>= fun _ => q) (t :: ts) :=
  h

/-- A test for an inner kind gives the same answer at the end and in front of an item. -/
theorem Extends.next (hs : Seam stop stop' B) {kind : TokenKind} (hk : kind.isInner = true) :
    Extends m B (Reader.next stop kind) (Reader.next stop' kind) := by
  refine Extends.peek (fun t ts => Or.inr (Or.inl rfl)) (Or.inr (Or.inl ?_))
  have hstop : (stop.kind == kind) = false := beq_eq_false_iff_ne.mpr (hs.kind_stop_ne hk)
  have hhead : ((B.headD stop').kind == kind) = false :=
    beq_eq_false_iff_ne.mpr (hs.kind_headD_ne hk)
  change (⟨[], B, .ok ((B.headD stop').kind == kind)⟩ : Reply Bool) =
    ⟨[], [] ++ B, .ok (stop.kind == kind)⟩
  rw [hstop, hhead, List.nil_append]

/-- A branch on the kind of the next token, which is passed over in the first case. -/
theorem Extends.ifNext (hs : Seam stop stop' B) {kind : TokenKind} (hk : kind.isInner = true)
    {p q p' q' : Reader α} (hp : Extends m B p q) (hp' : Extends m B p' q') :
    Extends m B
      (Reader.next stop kind >>= fun b => if b = true then Reader.skip >>= fun _ => p else p')
      (Reader.next stop' kind >>= fun b =>
        if b = true then Reader.skip >>= fun _ => q else q') := by
  -- at the seam neither side sees a token of this kind
  have hstop : (stop.kind == kind) = false := beq_eq_false_iff_ne.mpr (hs.kind_stop_ne hk)
  have hhead : ((B.headD stop').kind == kind) = false :=
    beq_eq_false_iff_ne.mpr (hs.kind_headD_ne hk)
  refine Extends.peek (f := fun t => if (t.kind == kind) = true then Reader.skip >>= fun _ => p
    else p') (g := fun t => if (t.kind == kind) = true then Reader.skip >>= fun _ => q else q')
    (fun t ts => ?_) ?_
  · cases (t.kind == kind) with
    | true => exact ExtendsAt.skip (hp ts)
    | false => exact hp' (t :: ts)
  · rw [hstop, hhead]
    exact hp' []

/-- A token that is wanted is there in both cases, or it is wanted at the end of the input. -/
theorem Extends.expect (hs : Seam stop stop' B) {kind : TokenKind} (hk : kind.isInner = true)
    (expected : Expectation) :
    Extends m B (Reader.expect stop kind expected) (Reader.expect stop' kind expected) := by
  refine Extends.peek (fun t ts => ?_) (Or.inl ?_)
  · split
    · exact ExtendsAt.skip (Extends.pure t ts)
    · exact Extends.fail _ (t :: ts)
  · rw [if_neg (hs.kind_stop_ne hk)]
    exact ⟨_, rfl, SyntaxError.atEnd_unexpected hs.stop_kind⟩

/-- Whatever is wanted at the end of the input is missing there. -/
theorem starved_expect (hs : Seam stop stop' B) {kind : TokenKind} (hk : kind.isInner = true)
    (expected : Expectation) : ((Reader.expect stop kind expected).run []).Starved := by
  refine ⟨.unexpected expected stop, ?_, SyntaxError.atEnd_unexpected hs.stop_kind⟩
  change ((if stop.kind = kind then Reader.skip >>= fun _ => Pure.pure stop
    else Reader.fail (.unexpected expected stop) : Reader Token).run []).result = _
  rw [if_neg (hs.kind_stop_ne hk)]
  rfl

/-! ### Repetition -/

section Many

variable {round round' : Reader (Option α)} {ts : List Token} {a : α}

/-- A repetition at the end of the input stops there or has read everything, as its round does. -/
theorem starved_or_exhausted_manyFrom
    (h : (round.run []).Starved ∨ (round.run []).Exhausted) :
    (manyFrom round []).Starved ∨ (manyFrom round []).Exhausted := by
  obtain ⟨e, he, hatEnd⟩ | ⟨hrest, o, ho⟩ := h
  · rw [manyFrom_of_error he]
    exact Or.inl ⟨e, rfl, hatEnd⟩
  · cases o with
    | none =>
      rw [manyFrom_of_none ho]
      exact Or.inr ⟨hrest, _, rfl⟩
    | some a =>
      -- no tokens are left to move on over, so this was the last round
      rw [manyFrom_of_idle ho (Nat.not_lt_zero _)]
      exact Or.inr ⟨hrest, _, rfl⟩

/-- **Repetition.** Where a round has read everything, the next round is asked at the end of the
input. -/
theorem Extends.many (h : Extends m B round round')
    (hend : m = true → (round.run []).Starved ∨ (round.run []).Exhausted) :
    Extends m B (Reader.many round) (Reader.many round') := by
  refine manyFrom_induction (M := fun ts r => r.CarriedOn m B (manyFrom round' (ts ++ B))) round
    fun ts ih => ?_
  rw [manyFrom_eq_andThen round']
  refine Reply.CarriedOn.andThen (h ts) (fun o => ?_) fun hm o => ?_
  · cases o with
    | none => exact .done [] _
    | some a =>
      -- in front of further tokens a round moves on exactly if it moves on alone
      rw [furtherRounds, furtherRounds, List.length_append, List.length_append]
      simp only [Nat.add_lt_add_iff_right]
      split
      · next hlt =>
        rw [Reply.map_eq_andThen, Reply.map_eq_andThen]
        exact Reply.CarriedOn.andThen (ih _ hlt) (fun as => .done (a :: as) _) fun hm as =>
          Or.inr ⟨hm, rfl, _, rfl⟩
      · exact .done [a] _
  · -- nothing is left for the rounds to come
    cases o with
    | none => exact Or.inr ⟨hm, rfl, _, rfl⟩
    | some a =>
      rw [furtherRounds]
      split
      · obtain ⟨e, he, hatEnd⟩ | ⟨hrest, as, has⟩ := starved_or_exhausted_manyFrom (hend hm)
        · exact Or.inl ⟨e, by rw [Reply.map, he]; rfl, hatEnd⟩
        · exact Or.inr ⟨hm, hrest, a :: as, by rw [Reply.map, has]; rfl⟩
      · exact Or.inr ⟨hm, rfl, _, rfl⟩

end Many

/-! ### The readers of the grammar -/

section Grammar

variable (hs : Seam stop stop' B)
include hs

/-- A token of an inner kind is found in both cases, or it is missing at the end. -/
theorem extends_token {kind : TokenKind} (hk : kind.isInner = true) :
    Extends false B (token stop kind) (token stop' kind) :=
  Extends.expect hs hk _

theorem starved_token {kind : TokenKind} (hk : kind.isInner = true) :
    ((token stop kind).run []).Starved :=
  starved_expect hs hk _

theorem extends_ident (expected : Expectation) :
    Extends false B (ident stop expected) (ident stop' expected) :=
  (Extends.expect hs rfl _).andThen fun _ => Extends.pure _

theorem starved_ident (expected : Expectation) : ((ident stop expected).run []).Starved :=
  (starved_expect hs rfl expected).andThen _

/-- Commas are of an inner kind, so the elements end alike. -/
theorem extends_commaSeparated {p q : Reader α} (h : Extends false B p q) :
    Extends false B (commaSeparated stop p) (commaSeparated stop' q) := by
  have hcomma : TokenKind.comma.isInner = true := rfl
  have hround := Extends.ifNext hs hcomma
    (h.andThen fun x => Extends.pure (m := false) (some x)) (Extends.pure none)
  exact h.andThen fun _ => (hround.many fun hfalse => absurd hfalse (by simp)).andThen
    fun _ => Extends.pure _

theorem extends_argumentList {p q : Reader α} (h : Extends false B p q) :
    Extends false B (argumentList stop p) (argumentList stop' q) := by
  refine (Extends.next hs rfl).andThen fun b => ?_
  cases b with
  | true => exact Extends.pure _
  | false => exact extends_commaSeparated hs h

/-- Behind a name nothing but an opening parenthesis makes a difference. -/
theorem extends_arguments (name : Ident) {inner inner' : Span → Reader (List α)}
    (h : ∀ s, Extends false B (inner s) (inner' s)) :
    Extends false B (arguments stop name inner) (arguments stop' name inner') := by
  refine Extends.peek (fun t ts => ?_) (Or.inr (Or.inl ?_))
  · split
    · refine ExtendsAt.skip (Extends.andThen (h t.span) (fun args => ?_) ts)
      exact (extends_token hs rfl).andThen fun _ => Extends.pure _
    · exact Extends.pure _ (t :: ts)
  · rw [if_neg (hs.kind_stop_ne rfl), if_neg (hs.kind_headD_ne rfl)]
    rfl

theorem extends_exprWith {inner inner' : Span → Reader (List Expr)}
    (h : ∀ s, Extends false B (inner s) (inner' s)) :
    Extends false B (exprWith stop inner) (exprWith stop' inner') :=
  (extends_ident hs _).andThen fun name =>
    (extends_arguments hs name h).andThen fun _ => Extends.pure _

/-- Patterns end alike, and a pattern that is missing is missing at the end. -/
theorem extends_patternWith {inner inner' : Span → Reader (List Pattern)}
    (h : ∀ s, Extends false B (inner s) (inner' s)) :
    Extends false B (patternWith stop inner) (patternWith stop' inner') := by
  have hctor : Extends false B
      (ident stop .pattern >>= fun name => arguments stop name inner >>= fun x =>
        Pure.pure (Pattern.ctor (name.span.merge x.2) name x.1))
      (ident stop' .pattern >>= fun name => arguments stop' name inner' >>= fun x =>
        Pure.pure (Pattern.ctor (name.span.merge x.2) name x.1)) :=
    (extends_ident hs _).andThen fun name =>
      (extends_arguments hs name h).andThen fun _ => Extends.pure _
  refine Extends.peek (fun t ts => ?_) (Or.inl ?_)
  · split
    · exact ExtendsAt.skip (Extends.pure _ ts)
    · exact hctor (t :: ts)
  · -- at the end of the input a name is missing, which is reported there
    rw [if_neg (hs.kind_stop_ne rfl)]
    exact (starved_ident hs _).andThen _

/-- Expressions are read alike in front of other items, whatever depth is left. -/
theorem extends_expr (n : Nat) : Extends false B (expr stop n) (expr stop' n) := by
  induction n with
  | zero => exact extends_exprWith hs fun _ => Extends.fail _
  | succ n ih => exact extends_exprWith hs fun _ => extends_argumentList hs ih

theorem extends_pattern (n : Nat) : Extends false B (pattern stop n) (pattern stop' n) := by
  induction n with
  | zero => exact extends_patternWith hs fun _ => Extends.fail _
  | succ n ih => exact extends_patternWith hs fun _ => extends_argumentList hs ih

/-! Declarations -/

theorem extends_extraField : Extends false B (extraField stop) (extraField stop') := by
  refine Extends.ifNext hs rfl ((Extends.next hs rfl).andThen fun b => ?_) (Extends.pure _)
  cases b with
  | true => exact Extends.pure _
  | false => exact (extends_ident hs _).andThen fun _ => Extends.pure _

theorem extends_extraFields (ctor : Ident) (field : Option Ident) :
    Extends false B (extraFields stop ctor field) (extraFields stop' ctor field) := by
  have hmany := (extends_extraField hs).many fun hfalse => absurd hfalse (by simp)
  refine hmany.andThen fun l => ?_
  cases l with
  | nil => exact Extends.pure _
  | cons first others => exact (Extends.note _).andThen fun _ => Extends.pure _

/-- The fields of a constructor are read alike. -/
theorem extends_fields (ctor : Ident) : Extends false B (fields stop ctor) (fields stop' ctor) := by
  refine (Extends.next hs rfl).andThen fun b => ?_
  cases b with
  | true => exact (Extends.pure none).andThen (extends_extraFields hs ctor)
  | false =>
    exact ((extends_ident hs _).andThen fun i => Extends.pure (some i)).andThen
      (extends_extraFields hs ctor)

theorem extends_ctorDecl : Extends false B (ctorDecl stop) (ctorDecl stop') := by
  refine (extends_ident hs _).andThen fun name => Extends.ifNext hs rfl ?_ (Extends.pure _)
  exact (extends_fields hs name).andThen fun _ =>
    (extends_token hs rfl).andThen fun _ => Extends.pure _

theorem starved_ctorDecl : ((ctorDecl stop).run []).Starved :=
  (starved_ident hs _).andThen _

/-- What divides constructors may be a line break, and a line break stands in front of the end as
well as in front of the next item. -/
theorem extends_separator (ctor : CtorDecl) :
    Extends true B (separator stop ctor) (separator stop' ctor) := by
  refine Extends.peek (fun t ts => ?_) ?_
  · split
    · exact Or.inr (Or.inl rfl)
    · split
      · exact Extends.pure _ (t :: ts)
      · exact Extends.fail _ (t :: ts)
  · rw [if_neg (hs.kind_stop_ne rfl)]
    -- at the end, a line break makes it look as if a constructor could follow
    split
    · exact Or.inr (Or.inr ⟨rfl, rfl, (), rfl⟩)
    · exact Or.inl ⟨_, rfl, SyntaxError.atEnd_unexpected hs.stop_kind⟩

/-- A round of constructors may end with a line break, and not know yet that the list goes on. -/
theorem extends_ctorRound : Extends true B (ctorRound stop) (ctorRound stop') := by
  refine (Extends.next hs rfl).andThen fun b => ?_
  cases b with
  | true => exact Extends.pure _
  | false =>
    refine (extends_ctorDecl hs).andThen fun ctor => ?_
    exact (extends_separator hs ctor).bind (fun _ => Extends.pure _)
      fun _ _ => Or.inr ⟨rfl, rfl, _, rfl⟩

/-- At the end of the input, a closing brace or a constructor is missing. -/
theorem starved_ctorRound : ((ctorRound stop).run []).Starved := by
  have hnext : (next stop .rightBrace).run [] = ⟨[], [], .ok false⟩ := by
    change (⟨[], [], .ok (stop.kind == .rightBrace)⟩ : Reply Bool) = _
    rw [beq_eq_false_iff_ne.mpr (hs.kind_stop_ne rfl)]
  unfold ctorRound
  rw [run_bind, hnext]
  exact (starved_ctorDecl hs).andThen _

/-- **A declaration is read alike**, since it ends with its closing brace. -/
theorem extends_enumDecl (keyword : Span) :
    Extends false B (enumDecl stop keyword) (enumDecl stop' keyword) := by
  refine (extends_ident hs _).andThen fun name => (extends_token hs rfl).andThen fun _ => ?_
  -- constructors that end early lack the closing brace
  refine ((extends_ctorRound hs).many fun _ => Or.inl (starved_ctorRound hs)).bind ?_ ?_
  · exact fun ctors => (extends_token hs rfl).andThen fun _ => Extends.pure _
  · exact fun _ ctors => Or.inl ((starved_token hs rfl).andThen _)

/-! Matches -/

omit hs in
/-- A block is closed by the same brace, or not closed at all. -/
theorem extends_closeBlock (opening : Span) (depth : Nat) (ts : List Token) :
    (closeBlock stop opening depth ts).Starved ∨
      closeBlock stop' opening depth (ts ++ B) =
        (closeBlock stop opening depth ts).followedBy B := by
  -- token by token, at a depth that is the same in both cases
  induction ts generalizing depth with
  | nil => exact Or.inl ⟨_, rfl, SyntaxError.atEnd_unclosedBlock _ _⟩
  | cons t ts ih =>
    rw [List.cons_append]
    unfold closeBlock
    split
    · exact ih _
    · exact Or.inr rfl
    · exact ih _
    · exact ih _

theorem extends_block : Extends false B (block stop) (block stop') := by
  refine (extends_token hs rfl).andThen fun opening ts => ?_
  obtain hstarved | heq := extends_closeBlock opening.span 0 ts
  · exact Or.inl hstarved
  · exact Or.inr (Or.inl heq)

theorem extends_arm : Extends false B (arm stop) (arm stop') :=
  (extends_pattern hs maxNesting).andThen fun _ => (extends_token hs rfl).andThen fun _ =>
    (extends_block hs).andThen fun _ => Extends.pure _

/-- The arms of a match end at the end of the input, and in front of another item they do not. -/
theorem extends_armRound : Extends true B (armRound stop) (armRound stop') := by
  have harm : Extends false B
      (arm stop >>= fun a => next stop .comma >>= fun b =>
        if b = true then skip >>= fun _ => Pure.pure (some a) else Pure.pure (some a))
      (arm stop' >>= fun a => next stop' .comma >>= fun b =>
        if b = true then skip >>= fun _ => Pure.pure (some a) else Pure.pure (some a)) :=
    (extends_arm hs).andThen fun a => Extends.ifNext hs rfl (Extends.pure _) (Extends.pure _)
  refine Extends.peek (fun t ts => ?_) (Or.inr (Or.inr ?_))
  · split
    · exact Extends.pure _ (t :: ts)
    · exact harm.loosen (t :: ts)
  · -- the first text ends between arms, and all of it is read
    rw [if_pos (by rw [hs.stop_kind]; rfl)]
    exact ⟨rfl, rfl, _, rfl⟩

/-- At the end of the input the arms of a match are over. -/
theorem exhausted_armRound : ((armRound stop).run []).Exhausted := by
  unfold armRound
  rw [run_bind]
  change ((if (decide (stop.kind = .rightBrace) || decide (stop.kind = .endOfInput)) = true
    then Pure.pure none else _ : Reader (Option Arm)).run []).Exhausted
  rw [if_pos (by rw [hs.stop_kind]; rfl)]
  exact ⟨rfl, _, rfl⟩

/-- **A match is read alike**, since it ends with its closing brace. -/
theorem extends_matchExpr (keyword : Span) :
    Extends false B (matchExpr stop keyword) (matchExpr stop' keyword) := by
  refine (extends_expr hs maxNesting).andThen fun scrutinee =>
    (extends_token hs rfl).andThen fun _ => ?_
  -- arms that end early lack the closing brace
  refine ((extends_armRound hs).many fun _ => Or.inr (exhausted_armRound hs)).bind ?_ ?_
  · exact fun arms => (extends_token hs rfl).andThen fun _ => Extends.pure _
  · exact fun _ arms => Or.inl ((starved_token hs rfl).andThen _)

/-- **An item is read alike in front of other items**, unless it is cut off by the end. -/
theorem extends_item (t : Token) : Extends false B (item stop t) (item stop' t) := by
  unfold item
  split
  · exact (extends_enumDecl hs t.span).andThen fun _ => Extends.pure _
  · exact (extends_matchExpr hs t.span).andThen fun _ => Extends.pure _
  · exact Extends.fail _

end Grammar

end Reader

/-! ### Whole programs -/

/-- Where reading goes on after an error is found without looking behind the next item. -/
theorem resume_append {stop stop' : Token} {B : List Token} (hs : Seam stop stop' B)
    (ts : List Token) : resume (ts ++ B) = resume ts ++ B := by
  unfold resume
  rw [List.dropWhile_append]
  split
  · next hempty =>
    -- nothing of `ts` is left, and the further tokens begin with an item
    rw [List.isEmpty_iff.mp hempty, List.nil_append]
    cases B with
    | nil => rfl
    | cons t B =>
      have hbegins : t.beginsItem = true := hs.begins t rfl
      rw [List.dropWhile_cons, hbegins]
      rfl
  · rfl

namespace Program

/-- **Recovery is local.** Item by item, what is read in front of further items is what is read
alone, as long as no error is reported at the end of the input. -/
theorem itemsFrom_append {stop stop' : Token} {B : List Token} (hs : Seam stop stop' B)
    (ts : List Token) (h : ∀ e ∈ (itemsFrom stop ts).2, ¬ e.AtEnd) :
    itemsFrom stop' (ts ++ B) =
      ((itemsFrom stop ts).1 ++ (itemsFrom stop' B).1,
        (itemsFrom stop ts).2 ++ (itemsFrom stop' B).2) := by
  -- along the items of the first part, of which the last may run into the second
  induction ts using items_induction stop with
  | nil =>
    rw [itemsFrom]
    rfl
  | ok t ts item hresult ih =>
    rw [itemsFrom_of_ok hresult] at h ⊢
    obtain ⟨e, he, -⟩ | heq | ⟨hfalse, -⟩ := Reader.extends_item hs t ts
    · exact absurd (hresult.symm.trans he) (by simp)
    · have hresult' : ((Reader.item stop' t).run (ts ++ B)).result = .ok item :=
        (congrArg Reply.result heq).trans hresult
      have hlater := ih fun e he => h e (List.mem_append_right _ he)
      rw [List.cons_append, itemsFrom_of_ok hresult', heq]
      change (item :: (itemsFrom stop' (((Reader.item stop t).run ts).rest ++ B)).1,
        ((Reader.item stop t).run ts).notes ++
          (itemsFrom stop' (((Reader.item stop t).run ts).rest ++ B)).2) = _
      rw [hlater, List.cons_append, List.append_assoc]
    · exact absurd hfalse (by simp)
  | error t ts e hresult ih =>
    rw [itemsFrom_of_error hresult] at h ⊢
    have hatEnd : ¬ e.AtEnd := h e (List.mem_append_right _ List.mem_cons_self)
    obtain ⟨e', he', hatEnd'⟩ | heq | ⟨hfalse, -⟩ := Reader.extends_item hs t ts
    · obtain rfl : e = e' := Except.error.inj (hresult.symm.trans he')
      exact absurd hatEnd' hatEnd
    · -- reading goes on at the next item, which may be the first of `B`
      have hresult' : ((Reader.item stop' t).run (ts ++ B)).result = .error e :=
        (congrArg Reply.result heq).trans hresult
      have hlater := ih fun e he => h e (List.mem_append_right _ (List.mem_cons_of_mem _ he))
      rw [List.cons_append, itemsFrom_of_error hresult', heq]
      change ((itemsFrom stop' (resume (((Reader.item stop t).run ts).rest ++ B))).1,
        ((Reader.item stop t).run ts).notes ++
          e :: (itemsFrom stop' (resume (((Reader.item stop t).run ts).rest ++ B))).2) = _
      rw [resume_append hs, hlater, List.append_assoc, List.cons_append]
    · exact absurd hfalse (by simp)

/-- The program of a token sequence with its trivia, and the errors met in it. -/
def read (stop : Token) (ts : List Token) : Program × List SyntaxError :=
  ofTokens stop (ts.filter (!·.kind.isTrivia))

end Program

theorem Source.program_eq_read (source : Source) :
    source.program = Program.read source.endToken source.tokens := rfl

/-- **Reading is compositional.** Let `X` be a token sequence in which reading alone reports no
error at the end of the input, and let `B` be empty or begin, trivia apart, with `enum` or `match`.
Then the items of `X` followed by `B` are the items of `X` and then those of `B`, and so are the
errors. -/
theorem Program.read_append {stop stop' : Token} (hstop : stop.kind = .endOfInput)
    (hstop' : stop'.kind = .endOfInput) (X B : List Token)
    (hX : ∀ e ∈ (read stop X).2, e.diagnostic.code ≠ Code.unexpectedEnd.text)
    (hB : ∀ t ∈ (B.filter (!·.kind.isTrivia)).head?,
      t.kind = .enumWord ∨ t.kind = .matchWord) :
    (read stop' (X ++ B)).1.items = (read stop X).1.items ++ (read stop' B).1.items ∧
      (read stop' (X ++ B)).2 = (read stop X).2 ++ (read stop' B).2 := by
  -- what follows begins with a keyword, if there is anything but trivia in it
  have hs : Seam stop stop' (B.filter (!·.kind.isTrivia)) := by
    refine ⟨hstop, hstop', fun t ht => ?_⟩
    rw [Token.beginsItem, Bool.or_eq_true, beq_iff_eq, beq_iff_eq]
    exact hB t ht
  have happend := itemsFrom_append hs (X.filter (!·.kind.isTrivia)) hX
  unfold read ofTokens
  rw [List.filter_append, happend]
  exact ⟨rfl, rfl⟩

/-- A source whose first two declarations are broken, with a stray word behind them, and in which a
declaration and a match follow that are whole. -/
def patchwork : Source :=
  .ofString "patchwork.pmxc" <|
    "enum \x7b A \x7d\nenum Coin \x7b Heads Tails \x7d stray\n" ++
    "enum Light \x7b On, Off \x7d // whole\nmatch On \x7b On => \x7b\x7d, Off => \x7b\x7d \x7d\n"

/-- The broken front of the patchwork hides nothing of what follows. -/
theorem patchwork_read_apart :
    (∀ e ∈ (Program.read patchwork.endToken (patchwork.tokens.take 22)).2,
        e.diagnostic.code ≠ Code.unexpectedEnd.text) ∧
      (Program.read patchwork.endToken (patchwork.tokens.take 22)).2.length = 2 ∧
      (Program.read patchwork.endToken (patchwork.tokens.drop 22)).1.items.length = 2 ∧
      patchwork.program.1.items =
        (Program.read patchwork.endToken (patchwork.tokens.take 22)).1.items ++
          (Program.read patchwork.endToken (patchwork.tokens.drop 22)).1.items ∧
      patchwork.program.2 =
        (Program.read patchwork.endToken (patchwork.tokens.take 22)).2 ++
          (Program.read patchwork.endToken (patchwork.tokens.drop 22)).2 := by
  have heval : (∀ e ∈ (Program.read patchwork.endToken (patchwork.tokens.take 22)).2,
        e.diagnostic.code ≠ Code.unexpectedEnd.text) ∧
      (Program.read patchwork.endToken (patchwork.tokens.take 22)).2.length = 2 ∧
      (Program.read patchwork.endToken (patchwork.tokens.drop 22)).1.items.length = 2 ∧
      ∀ t ∈ ((patchwork.tokens.drop 22).filter (!·.kind.isTrivia)).head?,
        t.kind = .enumWord ∨ t.kind = .matchWord := by
    decide +kernel
  obtain ⟨hfront, herrors, hitems, hbegins⟩ := heval
  refine ⟨hfront, herrors, hitems, ?_⟩
  have hstop : patchwork.endToken.kind = .endOfInput := rfl
  have happend := Program.read_append hstop hstop _ _ hfront hbegins
  rwa [List.take_append_drop, ← Source.program_eq_read] at happend

end MatchCheck
