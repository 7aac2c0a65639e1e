import MatchCheck.Program.Grammar

/-!
# Equations of readers

What a sequence, a repetition and the reading of items do, told apart by how the first step ends.

A repetition is its first round and then, perhaps, further rounds, so that it is a sequence as well
(`Reader.manyFrom_eq_andThen`). A judgement about readers therefore needs one rule, which says that
it is kept when one reply is followed by another. Its rule for sequences is that one, and its rule
for repetitions follows round by round (`Reader.manyFrom_induction`).

`Reader.Gives` is a judgement about what a reader reads when all tokens are of one sort. Where it
stops and what it reports does not matter. What holds of every item that can be read holds of all
items of a program (`Program.forall_items`), however many errors are met between them.
-/

namespace MatchCheck

namespace Reply

variable {α β : Type}

/-- Behind a value reading goes on with what is left, and the notes add up. -/
theorem andThen_of_ok {r : Reply α} {a : α} (h : r.result = .ok a)
    (f : α → List Token → Reply β) :
    r.andThen f =
      ⟨r.notes ++ (f a r.rest).notes, (f a r.rest).rest, (f a r.rest).result⟩ := by
  unfold Reply.andThen
  rw [h]

/-- Behind an error nothing is read. -/
theorem andThen_of_error {r : Reply α} {e : SyntaxError} (h : r.result = .error e)
    (f : α → List Token → Reply β) : r.andThen f = ⟨r.notes, r.rest, .error e⟩ := by
  unfold Reply.andThen
  rw [h]

/-- The reply with another value read. -/
def map (g : α → β) (r : Reply α) : Reply β :=
  ⟨r.notes, r.rest, r.result.map g⟩

/-- To change what was read is to go on behind it without reading anything. -/
theorem map_eq_andThen (g : α → β) (r : Reply α) :
    r.map g = r.andThen fun a rest => ⟨[], rest, .ok (g a)⟩ := by
  cases hr : r.result with
  | error e =>
    rw [andThen_of_error hr, map, hr]
    rfl
  | ok a =>
    rw [andThen_of_ok hr, map, hr, List.append_nil]
    rfl

end Reply

namespace Reader

/-- What is read behind the field of a constructor: further fields, which are reported together. -/
def extraFields (stop : Token) (ctor : Ident) (field : Option Ident) : Reader (Option Ident) := do
  match ← many (extraField stop) with
  | [] => return field
  | first :: others =>
    note (.tooManyFields ctor (others.foldl (fun s i => s.merge i.span) first.span))
    return field

variable {α : Type} {round : Reader (Option α)} {ts : List Token} {a : α}

theorem manyFrom_of_error {e : SyntaxError} (h : (round.run ts).result = .error e) :
    manyFrom round ts = ⟨(round.run ts).notes, (round.run ts).rest, .error e⟩ := by
  rw [manyFrom]
  simp only [h]

theorem manyFrom_of_none (h : (round.run ts).result = .ok none) :
    manyFrom round ts = ⟨(round.run ts).notes, (round.run ts).rest, .ok []⟩ := by
  rw [manyFrom]
  simp only [h]

/-- A round that yields something and moves on is followed by further ones. -/
theorem manyFrom_of_some (h : (round.run ts).result = .ok (some a))
    (hlt : (round.run ts).rest.length < ts.length) :
    manyFrom round ts =
      ⟨(round.run ts).notes ++ (manyFrom round (round.run ts).rest).notes,
        (manyFrom round (round.run ts).rest).rest,
        (manyFrom round (round.run ts).rest).result.map (a :: ·)⟩ := by
  rw [manyFrom]
  simp only [h, if_pos hlt]

/-- A round that yields something without moving on is the last one. -/
theorem manyFrom_of_idle (h : (round.run ts).result = .ok (some a))
    (hlt : ¬ (round.run ts).rest.length < ts.length) :
    manyFrom round ts = ⟨(round.run ts).notes, (round.run ts).rest, .ok [a]⟩ := by
  rw [manyFrom]
  simp only [h, if_neg hlt]

/-- What follows the first round of a repetition that had `length` tokens to read: further rounds,
if the first one has yielded something and moved on. -/
def furtherRounds (round : Reader (Option α)) (length : Nat) :
    Option α → List Token → Reply (List α)
  | none, rest => ⟨[], rest, .ok []⟩
  | some a, rest =>
    if rest.length < length then (manyFrom round rest).map (a :: ·) else ⟨[], rest, .ok [a]⟩

/-- **A repetition is a sequence.** So whatever is known of sequences leads on to repetitions, by
induction on how many tokens are left. -/
theorem manyFrom_eq_andThen (round : Reader (Option α)) (ts : List Token) :
    manyFrom round ts = (round.run ts).andThen (furtherRounds round ts.length) := by
  cases hr : (round.run ts).result with
  | error e => rw [manyFrom_of_error hr, Reply.andThen_of_error hr]
  | ok o =>
    rw [Reply.andThen_of_ok hr]
    cases o with
    | none => rw [manyFrom_of_none hr, furtherRounds, List.append_nil]
    | some a =>
      -- a round that reads nothing is the last one, so that rounds come to an end
      by_cases hlt : (round.run ts).rest.length < ts.length
      · rw [manyFrom_of_some hr hlt, furtherRounds, if_pos hlt]
        rfl
      · rw [manyFrom_of_idle hr hlt, furtherRounds, if_neg hlt, List.append_nil]

/-- **Rounds one by one.** What holds of the first round and what follows it, as soon as it holds of
repetitions on fewer tokens, holds of every repetition. -/
theorem manyFrom_induction {M : List Token → Reply (List α) → Prop} (round : Reader (Option α))
    (h : ∀ ts, (∀ us, us.length < ts.length → M us (manyFrom round us)) →
      M ts ((round.run ts).andThen (furtherRounds round ts.length))) (ts : List Token) :
    M ts (manyFrom round ts) := by
  -- on how many tokens are left, by which repetitions are defined
  induction hlen : ts.length using Nat.strongRecOn generalizing ts with
  | ind k ih =>
    subst hlen
    rw [manyFrom_eq_andThen]
    exact h ts fun us hlt => ih us.length hlt us rfl

end Reader

/-! ### What readers give -/

/-- What was read, if anything was. -/
def Reply.Gives {α : Type} (P : α → Prop) (r : Reply α) : Prop :=
  ∀ a, r.result = .ok a → P a

namespace Reply.Gives

variable {α β : Type} {P : α → Prop} {Q : β → Prop}

theorem done {a : α} {ts : List Token} (h : P a) : Gives P ⟨[], ts, .ok a⟩ := by
  intro b hb
  cases hb
  exact h

/-- What the second part gives may depend on what the first one has given. -/
theorem andThen {r : Reply α} {f : α → List Token → Reply β} (h : r.Gives P)
    (hf : ∀ a, P a → (f a r.rest).Gives Q) : (r.andThen f).Gives Q := by
  intro b hb
  cases hr : r.result with
  | error e =>
    rw [andThen_of_error hr] at hb
    cases hb
  | ok a =>
    rw [andThen_of_ok hr] at hb
    exact hf a (h a hr) b hb

end Reply.Gives

namespace Reader

variable {α : Type} {round : Reader (Option α)} {a : α}

/-- What a reader reads from tokens of one sort. -/
def Gives {α : Type} (T : Token → Prop) (P : α → Prop) (p : Reader α) : Prop :=
  ∀ ts, (∀ t ∈ ts, T t) → (p.run ts).Gives P

namespace Gives

variable {β : Type} {T : Token → Prop} {p : Reader α} {f : α → Reader β} {P : α → Prop}
  {Q : β → Prop}

theorem pure (h : P a) : Gives T P (Pure.pure a) := by
  intro ts _ b hb
  cases hb
  exact h

theorem fail (e : SyntaxError) : Gives T P (Reader.fail e) := by
  intro ts _ a ha
  cases ha

theorem none : Gives T (fun o => ∀ a ∈ o, P a) (Pure.pure Option.none) :=
  pure (by simp)

theorem some (h : P a) : Gives T (fun o => ∀ a ∈ o, P a) (Pure.pure (Option.some a)) :=
  pure fun _ hb => Option.mem_some_iff.mp hb ▸ h

/-- A reader of which nothing is kept. -/
theorem trivial (p : Reader α) : Gives T (fun _ => True) p :=
  fun _ _ _ _ => True.intro

/-- **Sequencing.** What the first reader leaves is a part of what it was given. -/
theorem bind (hp : Gives T P p) (hf : ∀ a, P a → Gives T Q (f a)) : Gives T Q (p >>= f) := by
  intro ts hts
  refine Reply.Gives.andThen (hp ts hts) fun a ha => hf a ha _ fun t ht => ?_
  exact hts t ((p.rest_suffix ts).subset ht)

/-- **Repetition.** -/
theorem many (h : Gives T (fun o => ∀ a ∈ o, P a) round) :
    Gives T (fun as => ∀ a ∈ as, P a) (Reader.many round) := by
  refine manyFrom_induction (M := fun ts r => (∀ t ∈ ts, T t) → r.Gives fun as => ∀ a ∈ as, P a)
    round fun ts ih hts => Reply.Gives.andThen (h ts hts) fun o ho => ?_
  cases o with
  | none => exact .done (List.forall_mem_nil P)
  | some a =>
    -- what the round gives is among what the repetition gives, first
    have ha : P a := ho a rfl
    rw [furtherRounds]
    split
    · next hlt =>
      rw [Reply.map_eq_andThen]
      refine Reply.Gives.andThen (ih _ hlt fun t ht => ?_) fun as has => .done ?_
      · exact hts t ((round.rest_suffix ts).subset ht)
      · exact List.forall_mem_cons.mpr ⟨ha, has⟩
    · exact .done (List.forall_mem_singleton.mpr ha)

theorem next (stop : Token) (kind : TokenKind) {f : Bool → Reader β} (hf : ∀ b, Gives T Q (f b)) :
    Gives T Q (Reader.next stop kind >>= f) :=
  (trivial _).bind fun b _ => hf b

theorem skip {f : Unit → Reader β} (hf : Gives T Q (f ())) : Gives T Q (Reader.skip >>= f) :=
  (trivial _).bind fun _ _ => hf

end Gives

section Grammar

variable {T : Token → Prop} {stop : Token} {P : α → Prop}

/-- A token of a kind that is looked for is not the end. -/
theorem gives_peek (hend : stop.kind = .endOfInput) :
    Gives T (fun t => t.kind ≠ .endOfInput → T t) (peek stop) := by
  intro ts hts t ht
  cases ht
  -- behind the last token the end of the text is seen, which is no token of it
  cases ts with
  | nil => exact fun h => absurd hend h
  | cons t ts => exact fun _ => hts t List.mem_cons_self

/-- **An expected token** is one of those that were given, and of the kind. -/
theorem gives_expect (hend : stop.kind = .endOfInput) {kind : TokenKind}
    (hkind : kind ≠ .endOfInput) (expected : Expectation) :
    Gives T (fun t => t.kind = kind ∧ T t) (expect stop kind expected) := by
  refine (gives_peek hend).bind fun t ht => ?_
  split
  · next h => exact Gives.skip (.pure ⟨h, ht (h ▸ hkind)⟩)
  · exact .fail _

/-- All arguments are what the reader of arguments gives. -/
theorem gives_argumentList {element : Reader α} (h : Gives T P element) :
    Gives T (fun as => ∀ a ∈ as, P a) (argumentList stop element) := by
  refine Gives.next stop _ fun b => ?_
  split
  · exact .pure (List.forall_mem_nil P)
  · -- the first argument is read by itself, all others behind a comma
    refine h.bind fun first hfirst => Gives.bind (Gives.many ?_)
      fun others hothers => .pure (List.forall_mem_cons.mpr ⟨hfirst, hothers⟩)
    refine Gives.next stop _ fun b => ?_
    split
    · exact Gives.skip (h.bind fun _ ha => .some ha)
    · exact .none

end Grammar

end Reader

namespace Program

/-- Behind an item reading goes on where the item ends. -/
theorem itemsFrom_of_ok {stop t : Token} {ts : List Token} {item : Item}
    (h : ((Reader.item stop t).run ts).result = .ok item) :
    itemsFrom stop (t :: ts) =
      (item :: (itemsFrom stop ((Reader.item stop t).run ts).rest).1,
        ((Reader.item stop t).run ts).notes ++
          (itemsFrom stop ((Reader.item stop t).run ts).rest).2) := by
  rw [itemsFrom]
  simp only [h]

/-- Behind an error reading goes on where the next item can begin. -/
theorem itemsFrom_of_error {stop t : Token} {ts : List Token} {e : SyntaxError}
    (h : ((Reader.item stop t).run ts).result = .error e) :
    itemsFrom stop (t :: ts) =
      ((itemsFrom stop (resume ((Reader.item stop t).run ts).rest)).1,
        ((Reader.item stop t).run ts).notes ++
          e :: (itemsFrom stop (resume ((Reader.item stop t).run ts).rest)).2) := by
  rw [itemsFrom]
  simp only [h]

/-- **Items one by one.** Behind an item reading goes on with the tokens that it left, and behind an
error with the next token at which an item can begin. There are fewer of them each time. -/
@[elab_as_elim]
theorem items_induction (stop : Token) {motive : List Token → Prop} (nil : motive [])
    (ok : ∀ t ts item, ((Reader.item stop t).run ts).result = .ok item →
      motive ((Reader.item stop t).run ts).rest → motive (t :: ts))
    (error : ∀ t ts e, ((Reader.item stop t).run ts).result = .error e →
      motive (resume ((Reader.item stop t).run ts).rest) → motive (t :: ts))
    (ts : List Token) : motive ts := by
  induction hlen : ts.length using Nat.strongRecOn generalizing ts with
  | ind n ih =>
    subst hlen
    cases ts with
    | nil => exact nil
    | cons t ts =>
      -- an item takes at least its first token
      have hrest : ((Reader.item stop t).run ts).rest.length < (t :: ts).length :=
        Nat.lt_succ_of_le ((Reader.item stop t).rest_suffix ts).length_le
      cases hr : ((Reader.item stop t).run ts).result with
      | ok item => exact ok t ts item hr (ih _ hrest _ rfl)
      | error e =>
        exact error t ts e hr (ih _ (Nat.lt_of_le_of_lt (length_resume_le _) hrest) _ rfl)

/-- What is read behind an error is a part of what was left. -/
theorem resume_rest_suffix (stop t : Token) (ts : List Token) :
    resume ((Reader.item stop t).run ts).rest <:+ ts :=
  (List.dropWhile_suffix _).trans ((Reader.item stop t).rest_suffix ts)

/-- **What holds of every item that is read holds of all items of a program.** -/
theorem forall_items {T : Token → Prop} {P : Item → Prop} {stop : Token} {ts : List Token}
    (h : ∀ t, T t → (Reader.item stop t).Gives T P) (hts : ∀ t ∈ ts, T t) :
    ∀ item ∈ (ofTokens stop ts).1.items, P item := by
  show ∀ item ∈ (itemsFrom stop ts).1, P item
  -- item by item; behind an error the next item begins further back, so tokens are still among
  -- these
  induction ts using items_induction stop with
  | nil =>
    rw [itemsFrom]
    exact List.forall_mem_nil _
  | ok t ts item hr ih =>
    obtain ⟨ht, hts⟩ := List.forall_mem_cons.mp hts
    rw [itemsFrom_of_ok hr]
    refine List.forall_mem_cons.mpr ⟨h t ht ts hts item hr, ih fun u hu => hts u ?_⟩
    exact ((Reader.item stop t).rest_suffix ts).subset hu
  | error t ts e hr ih =>
    rw [itemsFrom_of_error hr]
    exact ih fun u hu => hts u (List.mem_cons_of_mem t ((resume_rest_suffix stop t ts).subset hu))

/-- What holds of every declaration that is read holds of those of a program. -/
theorem forall_enumDecls {T : Token → Prop} {P : EnumDecl → Prop} {stop : Token} {ts : List Token}
    (h : ∀ keyword, (Reader.enumDecl stop keyword).Gives T P) (hts : ∀ t ∈ ts, T t) :
    ∀ d ∈ (ofTokens stop ts).1.enumDecls, P d := by
  -- an item that is no declaration has nothing to be said about it
  have hitem : ∀ t, T t → (Reader.item stop t).Gives T fun i => ∀ d ∈ i.enumDecl?, P d := by
    intro t _
    unfold Reader.item
    split
    · exact (h _).bind fun d hd => .pure fun e he => Option.mem_some_iff.mp he ▸ hd
    · exact (Reader.Gives.trivial _).bind fun m _ => .pure nofun
    · exact .fail _
  intro d hd
  obtain ⟨i, hi, hd⟩ := List.mem_filterMap.mp hd
  exact forall_items hitem hts i hi d hd

/-- What holds of every match that is read holds of those of a program. -/
theorem forall_matchExprs {T : Token → Prop} {P : MatchExpr → Prop} {stop : Token}
    {ts : List Token} (h : ∀ keyword, (Reader.matchExpr stop keyword).Gives T P)
    (hts : ∀ t ∈ ts, T t) : ∀ m ∈ (ofTokens stop ts).1.matchExprs, P m := by
  have hitem : ∀ t, T t → (Reader.item stop t).Gives T fun i => ∀ m ∈ i.matchExpr?, P m := by
    intro t _
    unfold Reader.item
    split
    · exact (Reader.Gives.trivial _).bind fun d _ => .pure nofun
    · exact (h _).bind fun m hm => .pure fun n hn => Option.mem_some_iff.mp hn ▸ hm
    · exact .fail _
  intro m hm
  obtain ⟨i, hi, hm⟩ := List.mem_filterMap.mp hm
  exact forall_items hitem hts i hi m hm

end Program

end MatchCheck
