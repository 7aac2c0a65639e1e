import MatchCheck.Proofs.Program.Blame
import MatchCheck.Proofs.Program.Counter

/-!
# Open argument lists

How many argument lists are open in an item can be told from the tokens that were passed over, by
going through them once: parentheses open and close argument lists unless they stand in the body of
an arm (`openLists`).

A reader with a counter follows one without (`FollowsAt`) if it gives the same reply, if at every
place on the way the counter is the number of lists that are open there (`Trace`), and if it stops
for too deep a nesting just where that number would get too great (`Stops`). Sequencing and
repetition keep this. It holds of readers that pass over no parenthesis outside of the bodies of
arms, since these need not count, and of the two that pass over one and count.
-/

namespace MatchCheck

/-! ### Argument lists that are open -/

/-- How many blocks and how many argument lists are open behind some tokens of a match. -/
structure Nesting where
  blocks : Nat
  lists : Int

namespace Nesting

/-- What a token opens or closes. Parentheses in the body of an arm, which is the second block, are
no argument lists. -/
def step (s : Nesting) (kind : TokenKind) : Nesting :=
  match kind with
  | .leftBrace => ⟨s.blocks + 1, s.lists⟩
  | .rightBrace => ⟨s.blocks - 1, s.lists⟩
  | .leftParen => if s.blocks ≤ 1 then ⟨s.blocks, s.lists + 1⟩ else s
  | .rightParen => if s.blocks ≤ 1 then ⟨s.blocks, s.lists - 1⟩ else s
  | _ => s

/-- What tokens one after the other open or close. -/
def steps (s : Nesting) (ts : List Token) : Nesting :=
  ts.foldl (fun s t => s.step t.kind) s

@[simp] theorem steps_nil (s : Nesting) : s.steps [] = s := rfl

@[simp] theorem steps_cons (s : Nesting) (t : Token) (ts : List Token) :
    s.steps (t :: ts) = (s.step t.kind).steps ts := rfl

theorem steps_append (s : Nesting) (ts us : List Token) :
    s.steps (ts ++ us) = (s.steps ts).steps us :=
  List.foldl_append

/-- The number of open lists is one that the counter may have. -/
structure Within (s : Nesting) : Prop where
  nonneg : 0 ≤ s.lists
  le : s.lists ≤ maxNesting

end Nesting

/-- The number of argument lists that are open in an item behind some of its tokens. Only a match
has argument lists. -/
def openLists (first : Token) (ts : List Token) : Int :=
  if first.kind = .matchWord then (Nesting.steps ⟨0, 0⟩ ts).lists else 0

/-! ### Traces -/

/-- The error is not about too deep a nesting. -/
def SyntaxError.Shallow (e : SyntaxError) : Prop :=
  ∀ opening, e ≠ .tooDeep opening

namespace SyntaxError

theorem shallow_unexpected (expected : Expectation) (found : Token) :
    (unexpected expected found).Shallow := by
  intro opening h
  cases h

theorem shallow_unclosedBlock (opening stop : Span) : (unclosedBlock opening stop).Shallow := by
  intro opening h
  cases h

theorem shallow_tooManyFields (ctor : Ident) (extra : Span) :
    (tooManyFields ctor extra).Shallow := by
  intro opening h
  cases h

end SyntaxError

section Trace

variable {α β : Type} {count : List Token → Int} {front front' : List Token} {r : Counted α}

/-- How reading ends that passed over the tokens `front`: without too many lists on the way, or
behind an opening parenthesis that opens one list too many. -/
inductive Stops (count : List Token → Int) (front : List Token) (result : Except SyntaxError α) :
    Prop
  | within (hle : ∀ f, f <+: front → count f ≤ maxNesting)
      (hshallow : ∀ e, result = .error e → e.Shallow)
  | tooDeep {f : List Token} {opening : Token} (hfront : front = f ++ [opening])
      (hkind : opening.kind = .leftParen) (hfull : count f = maxNesting)
      (hover : count front = maxNesting + 1) (hle : ∀ g, g <+: f → count g ≤ maxNesting)
      (hresult : result = .error (.tooDeep opening.span))

/-- At all places of the tokens `front` that were passed over, the counter is what `count` says of
the tokens in front of the place. -/
structure Trace (count : List Token → Int) (front : List Token) (r : Counted α) : Prop where
  seen : ∀ f back, front = f ++ back → back ≠ [] → ∃ m ∈ r.moments, m.left = back ++ r.reply.rest
  counter_of_moment : ∀ m ∈ r.moments, ∃ f back, front = f ++ back ∧
    m.left = back ++ r.reply.rest ∧ m.counter = count f
  counter_eq : r.counter = count front
  nonneg : ∀ f, f <+: front → 0 ≤ count f
  notes : ∀ e ∈ r.reply.notes, e.Shallow
  stops : Stops count front r.reply.result

/-- A front of two parts is one of the first, or the first part and a front of the second. -/
theorem forall_prefix_append {P : List Token → Prop} (hfirst : ∀ f, f <+: front → P f)
    (hsecond : ∀ g, g <+: front' → P (front ++ g)) : ∀ f, f <+: front ++ front' → P f := by
  rintro f ⟨back, hback⟩
  rcases List.append_eq_append_iff.mp hback with ⟨more, rfl, rfl⟩ | ⟨g, rfl, rfl⟩
  · exact hfirst f (List.prefix_append f more)
  · exact hsecond g (List.prefix_append g back)

/-- The fronts of a list are the empty one, and those that begin with its first token. -/
theorem forall_prefix_cons {P : List Token → Prop} {t : Token} (hnil : P [])
    (hcons : ∀ g, g <+: front → P (t :: g)) : ∀ f, f <+: t :: front → P f := by
  intro f hf
  rcases List.prefix_cons_iff.mp hf with rfl | ⟨g, rfl, hg⟩
  · exact hnil
  · exact hcons g hg

theorem forall_prefix_nil {P : List Token → Prop} (hnil : P []) : ∀ f, f <+: [] → P f := by
  intro f hf
  rwa [List.prefix_nil.mp hf]

namespace Trace

/-- Where nothing is read, the counter stays what it was. -/
theorem done (a : α) {n : Int} (ts : List Token) (hcount : count [] = n) (hnonneg : 0 ≤ n)
    (hle : n ≤ maxNesting) : Trace count [] (Counted.done a n ts) where
  seen _ _ h hne := absurd (List.append_eq_nil_iff.mp h.symm).2 hne
  counter_of_moment := List.forall_mem_nil _
  counter_eq := hcount.symm
  nonneg := forall_prefix_nil (hcount ▸ hnonneg)
  notes := List.forall_mem_nil _
  stops := .within (forall_prefix_nil (hcount ▸ hle)) (SyntaxError.forall_of_ok a)

/-- Looking at the next token and stopping there. -/
theorem stay {ts : List Token} {result : Except SyntaxError α} (hnonneg : 0 ≤ count [])
    (hstops : Stops count [] result) :
    Trace count [] ⟨[⟨count [], ts⟩], count [], [], ts, result⟩ where
  seen _ _ h hne := absurd (List.append_eq_nil_iff.mp h.symm).2 hne
  counter_of_moment := List.forall_mem_singleton.mpr ⟨[], [], rfl, rfl, rfl⟩
  counter_eq := rfl
  nonneg := forall_prefix_nil hnonneg
  notes := List.forall_mem_nil _
  stops := hstops

/-- Passing over one token, whatever it does to the counter. -/
theorem token {t : Token} {ts : List Token} {result : Except SyntaxError α}
    (hbefore : 0 ≤ count []) (hbehind : 0 ≤ count [t]) (hstops : Stops count [t] result) :
    Trace count [t]
      ⟨[⟨count [], t :: ts⟩, ⟨count [t], ts⟩], count [t], [], ts, result⟩ := by
  refine ⟨?_, ?_, rfl, ?_, List.forall_mem_nil _, hstops⟩
  · intro f back h hne
    -- only in front of the token is something of it still to come
    have hf : f = [] := by
      cases f with
      | nil => rfl
      | cons u f => exact absurd (List.append_eq_nil_iff.mp (List.cons.inj h).2.symm).2 hne
    subst hf
    exact ⟨_, List.mem_cons_self, congrArg (· ++ ts) h⟩
  · intro m hm
    rcases List.mem_pair.mp hm with rfl | rfl
    · exact ⟨[], [t], rfl, rfl, rfl⟩
    · exact ⟨[t], [], rfl, rfl, rfl⟩
  · exact forall_prefix_cons hbefore (forall_prefix_nil hbehind)

/-- Reading that does not count keeps the counter right as long as no list is opened or closed. -/
theorem lift {p : Reader α} {n : Int} {ts : List Token} (hts : ts = front ++ (p.run ts).rest)
    (hcount : ∀ f, f <+: front → count f = n) (hnonneg : 0 ≤ n) (hle : n ≤ maxNesting)
    (hp : p.Blames (fun _ => True) SyntaxError.Shallow) :
    Trace count front ((Counting.lift p).run n ts) := by
  obtain ⟨hnotes, herror⟩ := hp ts fun _ _ => trivial
  -- every end of the tokens down to the rest is a moment, and the counter is the same at each
  refine ⟨?_, ?_, ?_, ?_, hnotes, .within ?_ herror⟩
  · intro f back hfront _
    refine ⟨⟨n, back ++ (p.run ts).rest⟩, ?_, rfl⟩
    refine List.mem_map_of_mem (List.mem_filter.mpr ⟨(List.mem_tails _ _).mpr ?_, by simp⟩)
    exact ⟨f, by rw [← List.append_assoc, ← hfront, ← hts]⟩
  · intro m hm
    obtain ⟨us, hus, rfl⟩ := List.mem_map.mp hm
    obtain ⟨htail, hlength⟩ := List.mem_filter.mp hus
    obtain ⟨f, hf⟩ := (List.mem_tails _ _).mp htail
    rcases List.append_eq_append_iff.mp (hf.trans hts) with ⟨back, hfront, rfl⟩ | ⟨more, rfl, hrest⟩
    · refine ⟨f, back, hfront, rfl, (hcount f ?_).symm⟩
      rw [hfront]
      exact List.prefix_append f back
    · -- nothing is left of what was read
      have hnil : more = [] := by
        have hle := of_decide_eq_true hlength
        rw [hrest, List.length_append] at hle
        exact List.length_eq_zero_iff.mp (by omega)
      subst hnil
      refine ⟨front, [], (List.append_nil front).symm, hrest.symm, ?_⟩
      exact (hcount front (List.prefix_refl front)).symm
  · exact (hcount front (List.prefix_refl front)).symm
  · intro f hf
    rw [hcount f hf]
    exact hnonneg
  · intro f hf
    rw [hcount f hf]
    exact hle

/-- An error ends the reading. -/
theorem andThen_of_error {f : α → Int → List Token → Counted β} {e : SyntaxError}
    (h : Trace count front r) (he : r.reply.result = .error e) :
    Trace count front (r.andThen f) := by
  have hrun : r.andThen f = ⟨r.moments, r.counter, r.reply.notes, r.reply.rest, .error e⟩ := by
    unfold Counted.andThen
    rw [he]
  rw [hrun]
  refine ⟨h.seen, h.counter_of_moment, h.counter_eq, h.nonneg, h.notes, ?_⟩
  -- where reading stopped stays as it was, for either reason
  cases h.stops with
  | within hle hshallow =>
    refine .within hle fun e' he' => ?_
    cases he'
    exact hshallow e he
  | tooDeep hfront hkind hfull hover hle hresult =>
    rw [he] at hresult
    cases hresult
    exact .tooDeep hfront hkind hfull hover hle rfl

/-- What is read behind a success goes on counting from where the first part stopped. -/
theorem andThen_of_ok {f : α → Int → List Token → Counted β} {a : α} {s : Counted β}
    (h : Trace count front r) (ha : r.reply.result = .ok a)
    (hs : f a r.counter r.reply.rest = s) (hrest : r.reply.rest = front' ++ s.reply.rest)
    (hf : Trace (fun g => count (front ++ g)) front' s) :
    Trace count (front ++ front') (r.andThen f) := by
  -- both parts are put together as they are: moments, notes and what is left
  have hrun : r.andThen f = ⟨r.moments ++ s.moments, s.counter, r.reply.notes ++ s.reply.notes,
      s.reply.rest, s.reply.result⟩ := by
    unfold Counted.andThen
    rw [ha]
    dsimp only
    rw [hs]
  -- a success never had too many lists open
  have hle : ∀ f, f <+: front → count f ≤ maxNesting := by
    cases h.stops with
    | within hle _ => exact hle
    | tooDeep _ _ _ _ _ hresult =>
      rw [ha] at hresult
      cases hresult
  rw [hrun]
  refine ⟨?_, ?_, hf.counter_eq, forall_prefix_append h.nonneg hf.nonneg,
    List.forall_mem_append.mpr ⟨h.notes, hf.notes⟩, ?_⟩
  · intro g back hg hne
    rcases List.append_eq_append_iff.mp hg with ⟨more, rfl, rfl⟩ | ⟨mid, rfl, rfl⟩
    · -- a place in the second part
      obtain ⟨m, hm, hleft⟩ := hf.seen more back rfl hne
      exact ⟨m, List.mem_append_right _ hm, hleft⟩
    · -- a place in the first part, where its end is the beginning of the second
      by_cases hmid : mid = []
      · subst hmid
        obtain ⟨m, hm, hleft⟩ := hf.seen [] front' rfl hne
        exact ⟨m, List.mem_append_right _ hm, hleft⟩
      · obtain ⟨m, hm, hleft⟩ := h.seen g mid rfl hmid
        refine ⟨m, List.mem_append_left _ hm, ?_⟩
        rw [hleft, hrest, List.append_assoc]
  · intro m hm
    -- a moment of the first part has the second one still to come
    rcases List.mem_append.mp hm with hm | hm
    · obtain ⟨g, back, rfl, hleft, hcounter⟩ := h.counter_of_moment m hm
      refine ⟨g, back ++ front', List.append_assoc _ _ _, ?_, hcounter⟩
      rw [hleft, hrest, List.append_assoc]
    · obtain ⟨g, back, rfl, hleft, hcounter⟩ := hf.counter_of_moment m hm
      exact ⟨front ++ g, back, (List.append_assoc _ _ _).symm, hleft, hcounter⟩
  · -- for the second part the count began behind the first, so its limit is the same
    cases hf.stops with
    | within hle' hshallow => exact .within (forall_prefix_append hle hle') hshallow
    | tooDeep hfront hkind hfull hover hle' hresult =>
      subst hfront
      exact .tooDeep (List.append_assoc _ _ _).symm hkind hfull hover
        (forall_prefix_append hle hle') hresult

/-- To change what is read does not touch the counter. -/
theorem map (g : α → β) (h : Trace count front r) : Trace count front (r.map g) := by
  refine ⟨h.seen, h.counter_of_moment, h.counter_eq, h.nonneg, h.notes, ?_⟩
  -- what is read is not looked at, and an error stays the same error
  cases h.stops with
  | within hle hshallow =>
    refine .within hle fun e he => hshallow e ?_
    change r.reply.result.map g = .error e at he
    cases hr : r.reply.result with
    | error e' =>
      rw [hr] at he
      cases he
      rfl
    | ok a =>
      rw [hr] at he
      cases he
  | tooDeep hfront hkind hfull hover hle hresult =>
    refine .tooDeep hfront hkind hfull hover hle ?_
    change r.reply.result.map g = _
    rw [hresult]
    rfl

end Trace

end Trace

/-! ### Readers with and without the counter -/

section Follows

variable {α β : Type} {s s' s'' : Nesting} {ts : List Token}

/-- The outcome with the counter is that without it, the counter is right on the way, and a success
leads from `s` to `s'`. -/
structure Followed (s s' : Nesting) (ts : List Token) (r : Counted α) (a : Reply α) : Prop where
  reply_eq : r.reply = a
  trace : ∃ front, ts = front ++ a.rest ∧ Trace (fun f => (s.steps f).lists) front r ∧
    ∀ x, a.result = .ok x → s.steps front = s'

/-- **Sequencing.** -/
theorem Followed.andThen {r : Counted α} {a : Reply α} {f : α → Int → List Token → Counted β}
    {g : α → List Token → Reply β} (h : Followed s s' ts r a)
    (hf : ∀ x, a.result = .ok x → Followed s' s'' a.rest (f x s'.lists a.rest) (g x a.rest)) :
    Followed s s'' ts (r.andThen f) (a.andThen g) := by
  obtain ⟨rfl, front, hts, htrace, hok⟩ := h
  cases hr : r.reply.result with
  | error e =>
    rw [Reply.andThen_of_error hr]
    refine ⟨?_, front, hts, htrace.andThen_of_error hr, nofun⟩
    unfold Counted.andThen
    rw [hr]
  | ok x =>
    obtain rfl := hok x hr
    -- the second part starts with the counter that the first one left
    obtain ⟨hreply, front', hrest, htrace', hok'⟩ := hf x hr
    rw [← htrace.counter_eq] at hreply htrace'
    rw [Reply.andThen_of_ok hr]
    refine ⟨?_, front ++ front', ?_, ?_, ?_⟩
    · unfold Counted.andThen
      rw [hr]
      dsimp only
      rw [hreply]
    · rw [List.append_assoc, ← hrest, ← hts]
    · refine htrace.andThen_of_ok hr rfl ?_ ?_
      · rw [hreply]
        exact hrest
      · simpa only [Nesting.steps_append] using htrace'
    · intro y hy
      rw [Nesting.steps_append]
      exact hok' y hy

/-- To change what is read is the same with the counter and without. -/
theorem Followed.map {r : Counted α} {a : Reply α} (h : Followed s s' ts r a) (g : α → β) :
    Followed s s' ts (r.map g) (a.map g) := by
  obtain ⟨rfl, front, hts, htrace, hok⟩ := h
  refine ⟨rfl, front, hts, htrace.map g, fun y hy => ?_⟩
  cases hr : r.reply.result with
  | error e =>
    rw [Reply.map, hr] at hy
    cases hy
  | ok x => exact hok x hr

theorem Followed.done (hs : s.Within) (x : α) :
    Followed s s ts (.done x s.lists ts) ⟨[], ts, .ok x⟩ :=
  ⟨rfl, [], rfl, .done x ts rfl hs.nonneg hs.le, fun _ _ => rfl⟩

/-- On the tokens `ts`, a reader with a counter follows one without. -/
def FollowsAt (s s' : Nesting) (p : Counting α) (q : Reader α) (ts : List Token) : Prop :=
  Followed s s' ts (p.run s.lists ts) (q.run ts)

namespace FollowsAt

variable {p : Counting α} {q : Reader α} {f : α → Counting β} {g : α → Reader β}

theorem pure (hs : s.Within) (a : α) : FollowsAt s s (Pure.pure a) (Pure.pure a) ts :=
  Followed.done hs a

/-- **Sequencing.** Where the first parts agree and succeed, the second ones are compared with what
is left. -/
theorem bind (h : FollowsAt s s' p q ts)
    (hf : ∀ a, (q.run ts).result = .ok a → FollowsAt s' s'' (f a) (g a) (q.run ts).rest) :
    FollowsAt s s'' (p >>= f) (q >>= g) ts :=
  Followed.andThen h hf

/-- **Repetition.** -/
theorem many {round : Counting (Option α)} {round' : Reader (Option α)} (hs : s.Within)
    (h : ∀ ts, FollowsAt s s round round' ts) (ts : List Token) :
    FollowsAt s s (Counting.many round) (Reader.many round') ts := by
  show Followed s s ts (Counting.manyFrom round s.lists ts) (Reader.manyFrom round' ts)
  -- on how many tokens are left, by which both repetitions are defined
  induction hlen : ts.length using Nat.strongRecOn generalizing ts with
  | ind k ih =>
    subst hlen
    rw [Counting.manyFrom, Reader.manyFrom_eq_andThen]
    refine Followed.andThen (h ts) fun o _ => ?_
    cases o with
    | none => exact .done hs []
    | some a =>
      rw [Reader.furtherRounds]
      dsimp only
      split
      · next hlt => exact (ih _ hlt _ rfl).map _
      · exact .done hs [a]

end FollowsAt

/-! ### Readers that do not count -/

/-- A reader opens and closes no argument list. A success leads from `s` to `s'`. -/
def Level (s s' : Nesting) (q : Reader α) : Prop :=
  ∀ ts, ∃ front, ts = front ++ (q.run ts).rest ∧ (∀ f, f <+: front → (s.steps f).lists = s.lists) ∧
    ∀ a, (q.run ts).result = .ok a → s.steps front = s'

/-- A reader that opens no list need not count. -/
theorem Level.followsAt {q : Reader α} (h : Level s s' q) (hs : s.Within)
    (hq : q.Blames (fun _ => True) SyntaxError.Shallow) (ts : List Token) :
    FollowsAt s s' (Counting.lift q) q ts := by
  obtain ⟨front, hts, hlists, hok⟩ := h ts
  exact ⟨rfl, front, hts, .lift hts hlists hs.nonneg hs.le hq, hok⟩

/-- Reading that passes over nothing. -/
theorem Level.of_rest_eq {q : Reader α} (h : ∀ ts, (q.run ts).rest = ts) : Level s s q := by
  intro ts
  exact ⟨[], (h ts).symm, forall_prefix_nil rfl, fun _ _ => rfl⟩

/-- Two such readers one behind the other open no list. -/
theorem Level.bind {q : Reader α} {g : α → Reader β} (h : Level s s' q)
    (hlists : s'.lists = s.lists) (hg : ∀ a, Level s' s'' (g a)) : Level s s'' (q >>= g) := by
  intro ts
  obtain ⟨front, hts, hfront, hok⟩ := h ts
  rw [Reader.run_bind]
  cases hr : (q.run ts).result with
  | error e =>
    rw [Reply.andThen_of_error hr]
    exact ⟨front, hts, hfront, nofun⟩
  | ok a =>
    obtain rfl := hok a hr
    obtain ⟨front', hrest, hfront', hok'⟩ := hg a (q.run ts).rest
    rw [Reply.andThen_of_ok hr]
    -- within the first part nothing is opened, and the second goes on from there
    refine ⟨front ++ front', ?_, forall_prefix_append hfront fun g hg => ?_, fun b hb => ?_⟩
    · rw [List.append_assoc, ← hrest, ← hts]
    · rw [Nesting.steps_append, hfront' g hg, hlists]
    · rw [Nesting.steps_append, hok' b hb]

/-- All errors but one are made without counting. -/
theorem shallow_errorSort {stop : Token} (hend : stop.kind = .endOfInput) :
    Reader.ErrorSort (fun _ => True) SyntaxError.Shallow stop where
  stop_kind := hend
  stop := trivial
  merge _ _ _ _ := trivial
  unexpected expected t _ := SyntaxError.shallow_unexpected expected t
  unclosedBlock s t _ _ := SyntaxError.shallow_unclosedBlock s t
  tooManyFields ctor s _ := SyntaxError.shallow_tooManyFields ctor s

/-- What is done about an expected token, in one step. -/
theorem run_expect (stop : Token) (kind : TokenKind) (expected : Expectation) (ts : List Token) :
    (Reader.expect stop kind expected).run ts =
      if (ts.headD stop).kind = kind then ⟨[], ts.tail, .ok (ts.headD stop)⟩
      else ⟨[], ts, .error (.unexpected expected (ts.headD stop))⟩ := by
  unfold Reader.expect
  rw [Reader.run_bind]
  change Reply.andThen ⟨[], ts, .ok (ts.headD stop)⟩ _ = _
  rw [Reply.andThen_of_ok rfl]
  dsimp only
  split <;> rfl

section Tokens

variable {stop : Token} (hend : stop.kind = .endOfInput)
include hend

/-- A token of a kind that is looked for is there. -/
theorem exists_cons_of_kind {kind : TokenKind} (hkind : kind ≠ .endOfInput)
    (h : (ts.headD stop).kind = kind) : ∃ t rest, ts = t :: rest ∧ t.kind = kind := by
  cases ts with
  | nil => exact absurd (h.symm.trans hend) hkind
  | cons t rest => exact ⟨t, rest, rfl, h⟩

/-- Reading one token of a kind that is no parenthesis. -/
theorem level_expect {kind : TokenKind} (hkind : kind ≠ .endOfInput)
    (hlists : (s.step kind).lists = s.lists) (expected : Expectation) :
    Level s (s.step kind) (Reader.expect stop kind expected) := by
  intro ts
  rw [run_expect]
  by_cases h : (ts.headD stop).kind = kind
  · obtain ⟨t, rest, rfl, rfl⟩ := exists_cons_of_kind hend hkind h
    rw [if_pos h]
    exact ⟨[t], rfl, forall_prefix_cons rfl (forall_prefix_nil hlists), fun _ _ => rfl⟩
  · rw [if_neg h]
    exact ⟨[], rfl, forall_prefix_nil rfl, nofun⟩

theorem level_ident (expected : Expectation) : Level s s (Reader.ident stop expected) :=
  (level_expect hend (by decide) rfl expected).bind rfl fun _ => .of_rest_eq fun _ => rfl

omit hend in
/-- The rest of a block goes back to where the block began. -/
theorem level_closeBlock (opening : Span) (n : Int) (depth : Nat) (ts : List Token) :
    ∃ front, ts = front ++ (Reader.closeBlock stop opening depth ts).rest ∧
      (∀ f, f <+: front → (Nesting.steps ⟨depth + 2, n⟩ f).lists = n) ∧
      ∀ a, (Reader.closeBlock stop opening depth ts).result = .ok a →
        Nesting.steps ⟨depth + 2, n⟩ front = ⟨1, n⟩ := by
  -- token by token, with as many blocks open as the reader counts, and two around them
  induction ts generalizing depth with
  | nil =>
    exact ⟨[], rfl, forall_prefix_nil rfl, nofun⟩
  | cons t ts ih =>
    -- a token behind which as many blocks are open as the rest is told
    have hgo : ∀ depth', Nesting.step ⟨depth + 2, n⟩ t.kind = ⟨depth' + 2, n⟩ →
        ∃ front, t :: ts = front ++ (Reader.closeBlock stop opening depth' ts).rest ∧
          (∀ f, f <+: front → (Nesting.steps ⟨depth + 2, n⟩ f).lists = n) ∧
          ∀ a, (Reader.closeBlock stop opening depth' ts).result = .ok a →
            Nesting.steps ⟨depth + 2, n⟩ front = ⟨1, n⟩ := by
      intro depth' hstep
      obtain ⟨front, hts, hlists, hok⟩ := ih depth'
      refine ⟨t :: front, congrArg (t :: ·) hts, forall_prefix_cons rfl fun g hg => ?_, ?_⟩
      · rw [Nesting.steps_cons, hstep]
        exact hlists g hg
      · rw [Nesting.steps_cons, hstep]
        exact hok
    unfold Reader.closeBlock
    split
    · next hkind => exact hgo _ (by rw [hkind]; rfl)
    · next hkind =>
      have hstep : Nesting.step ⟨0 + 2, n⟩ t.kind = ⟨1, n⟩ := by
        rw [hkind]
        rfl
      refine ⟨[t], rfl, forall_prefix_cons rfl (forall_prefix_nil ?_), fun _ _ => hstep⟩
      exact congrArg Nesting.lists hstep
    · next hkind => exact hgo _ (by rw [hkind]; rfl)
    · next depth _ _ hleft hzero hsucc =>
      -- inside the body of an arm parentheses open nothing
      refine hgo _ ?_
      have hright : t.kind ≠ .rightBrace := by
        intro hkind
        rcases Nat.eq_zero_or_eq_succ_pred depth with hdepth | hdepth
        · exact hzero hkind hdepth
        · exact hsucc _ hkind hdepth
      unfold Nesting.step
      split
      · next hkind => exact absurd hkind hleft
      · next hkind => exact absurd hkind hright
      · exact if_neg (by simp)
      · exact if_neg (by simp)
      · rfl

/-- The body of an arm opens no list, whatever parentheses are in it. -/
theorem level_block (n : Int) : Level ⟨1, n⟩ ⟨1, n⟩ (Reader.block stop) :=
  (level_expect hend (by decide) rfl _).bind rfl fun opening => level_closeBlock opening.span n 0

/-- Passing over a token that is no bracket. -/
theorem followsAt_skip {kind : TokenKind} (hkind : kind ≠ .endOfInput) (hs : s.Within)
    (hstep : s.step kind = s) (h : (ts.headD stop).kind = kind) :
    FollowsAt s s (Counting.lift Reader.skip) Reader.skip ts := by
  obtain ⟨t, rest, rfl, rfl⟩ := exists_cons_of_kind hend hkind h
  refine ⟨rfl, [t], rfl, .lift rfl ?_ hs.nonneg hs.le .skip, fun _ _ => hstep⟩
  exact forall_prefix_cons rfl (forall_prefix_nil (congrArg Nesting.lists hstep))

end Tokens

/-! ### Parentheses -/

/-- The nesting behind a parenthesis that opens an argument list. -/
def Nesting.opened (s : Nesting) : Nesting :=
  ⟨s.blocks, s.lists + 1⟩

/-- Outside of bodies a parenthesis opens a list. -/
theorem Nesting.step_leftParen (hs : s.blocks ≤ 1) : s.step .leftParen = s.opened :=
  if_pos hs

theorem Nesting.step_rightParen_opened (hs : s.blocks ≤ 1) : s.opened.step .rightParen = s := by
  refine (if_pos hs).trans ?_
  show (⟨s.blocks, s.lists + 1 - 1⟩ : Nesting) = s
  rw [Int.add_sub_cancel]

/-- Below the limit one more list may be opened. -/
theorem Nesting.Within.opened (hs : s.Within) (hlt : s.lists < maxNesting) : s.opened.Within :=
  ⟨Int.le_add_one hs.nonneg, hlt⟩

/-- Passing over a parenthesis counts the list that it opens. -/
theorem followsAt_enter {t : Token} (ht : t.kind = .leftParen) (hblocks : s.blocks ≤ 1)
    (hs : s.Within) (hlt : s.lists < maxNesting) (ts : List Token) :
    FollowsAt s s.opened (Counting.enter t.span) Reader.skip (t :: ts) := by
  have hstep : s.steps [t] = s.opened := by
    rw [Nesting.steps_cons, ht, Nesting.step_leftParen hblocks, Nesting.steps_nil]
  have hlists : (s.steps [t]).lists = s.lists + 1 := congrArg Nesting.lists hstep
  have hwithin : (s.steps [t]).Within := hstep ▸ hs.opened hlt
  -- the counter is still within the limit, so the parenthesis is let pass
  have hrun : (Counting.enter t.span).run s.lists (t :: ts) =
      ⟨[⟨s.lists, t :: ts⟩, ⟨s.lists + 1, ts⟩], s.lists + 1, [], ts, .ok ()⟩ := by
    unfold Counting.enter
    dsimp only
    rw [if_pos (hlists ▸ hwithin.le), List.tail_cons]
  unfold FollowsAt
  rw [hrun, ← hlists]
  refine ⟨rfl, [t], rfl, .token hs.nonneg hwithin.nonneg
    (.within ?_ (SyntaxError.forall_of_ok _)), fun _ _ => hstep⟩
  exact forall_prefix_cons hs.le (forall_prefix_nil hwithin.le)

/-- A parenthesis that opens one list too many is reported behind it. -/
theorem followsAt_enter_full {t : Token} (ht : t.kind = .leftParen) (hblocks : s.blocks ≤ 1)
    (hs : s.Within) (hfull : s.lists = maxNesting) (f : Unit → Counting β) (g : α → Reader β)
    (ts : List Token) :
    FollowsAt s s' (Counting.enter t.span >>= f)
      (Reader.skip >>= fun _ => Reader.fail (.tooDeep t.span) >>= g) (t :: ts) := by
  have hlists : (s.steps [t]).lists = s.lists + 1 := by
    rw [Nesting.steps_cons, ht, Nesting.step_leftParen hblocks]
    rfl
  -- the counter goes beyond the limit before the error is reported
  have hrun : (Counting.enter t.span).run s.lists (t :: ts) = ⟨[⟨s.lists, t :: ts⟩,
      ⟨s.lists + 1, ts⟩], s.lists + 1, [], ts, .error (.tooDeep t.span)⟩ := by
    unfold Counting.enter
    dsimp only
    rw [if_neg (by omega), List.tail_cons]
  have htrace : Trace (fun f => (s.steps f).lists) [t]
      ((Counting.enter t.span).run s.lists (t :: ts)) := by
    rw [hrun, ← hlists]
    refine .token hs.nonneg ?_ (.tooDeep (List.nil_append [t]).symm ht hfull ?_ ?_ rfl)
    · have := hs.nonneg
      omega
    · show (s.steps [t]).lists = _
      rw [hlists, hfull]
    · exact forall_prefix_nil hs.le
  have herror : ((Counting.enter t.span).run s.lists (t :: ts)).reply.result =
      .error (.tooDeep t.span) := by
    rw [hrun]
  refine ⟨?_, [t], rfl, htrace.andThen_of_error herror, nofun⟩
  show (((Counting.enter t.span).run s.lists (t :: ts)).andThen _).reply = _
  rw [hrun]
  rfl

/-- Passing over the parenthesis that closes a list counts the list no longer. -/
theorem followsAt_leave {stop : Token} (hend : stop.kind = .endOfInput) (hblocks : s.blocks ≤ 1)
    (hs : s.Within) (hlt : s.lists < maxNesting) (ts : List Token) :
    FollowsAt s.opened s (Counting.leave stop) (Reader.token stop .rightParen) ts := by
  have hopened := hs.opened hlt
  unfold FollowsAt Counting.leave
  dsimp only
  rw [Reader.token, run_expect]
  by_cases h : (ts.headD stop).kind = .rightParen
  · -- the parenthesis takes back the list that was opened
    obtain ⟨t, rest, rfl, ht⟩ := exists_cons_of_kind hend (by decide) h
    have hstep : s.opened.steps [t] = s := by
      rw [Nesting.steps_cons, ht, Nesting.step_rightParen_opened hblocks, Nesting.steps_nil]
    have hlists : (s.opened.steps [t]).lists = s.opened.lists - 1 := by
      rw [hstep]
      exact (Int.add_sub_cancel _ _).symm
    have hwithin : (s.opened.steps [t]).Within := by rwa [hstep]
    rw [if_pos h]
    dsimp only
    rw [← hlists]
    refine ⟨rfl, [t], rfl, .token hopened.nonneg hwithin.nonneg
      (.within ?_ (SyntaxError.forall_of_ok _)), fun _ _ => hstep⟩
    exact forall_prefix_cons hopened.le (forall_prefix_nil hwithin.le)
  · rw [if_neg h]
    refine ⟨rfl, [], rfl, .stay hopened.nonneg (.within (forall_prefix_nil hopened.le) ?_), nofun⟩
    intro e he
    cases he
    exact SyntaxError.shallow_unexpected _ _

end Follows

end MatchCheck
