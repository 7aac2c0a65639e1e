import MatchCheck.Proofs.Program.Reader
import MatchCheck.Proofs.Program.Unambiguous

/-!
# Reading is deriving

`Reads p ls a rest` says that a reader takes leaves off the front of `ls`, gives the value `a`
without any error and leaves `rest`. For every rule of the grammar an equivalence says that this
happens exactly if a tree of the rule derives the leaves that were taken and stands for `a`
(`readsTerms_term`, `reads_ctorDecl`, `reads_enumDecl`, `reads_block`, `reads_arm`,
`reads_matchExpr`). The equivalences for the combinators carry them: a sequence reads what its parts
read one behind the other (`reads_bind`), a choice looks at one leaf (`reads_ifNext`), and a
repetition reads a list of trees (`reads_many`).

Together with unambiguity this gives the main statement, that a source is read without an error
exactly if its leaves have a derivation, and as the program of that derivation.
-/

namespace MatchCheck

namespace Reader

variable {α β : Type} {stop : Token} {ls rest : List Leaf}

/-- A reader takes leaves off the front and gives a value without any error. -/
def Reads (p : Reader α) (ls : List Leaf) (a : α) (rest : List Leaf) : Prop :=
  p.run (ls.map Leaf.token) = ⟨[], rest.map Leaf.token, .ok a⟩ ∧ rest <:+ ls

/-! ### Combinators -/

/-- Leaves are more than their tokens, but an end of the leaves is known by how many tokens it has.
-/
theorem eq_of_suffix_of_map_eq (h : rest <:+ ls) (hmap : rest.map Leaf.token = ls.map Leaf.token) :
    rest = ls := by
  refine h.eq_of_length ?_
  simpa using congrArg List.length hmap

/-- Returning a value takes no leaf. -/
theorem reads_pure {a b : α} : Reads (pure a) ls b rest ↔ b = a ∧ rest = ls := by
  constructor
  · rintro ⟨hrun, hsuffix⟩
    rw [run_pure, Reply.mk.injEq] at hrun
    obtain ⟨-, hmap, hab⟩ := hrun
    exact ⟨(Except.ok.inj hab).symm, eq_of_suffix_of_map_eq hsuffix hmap.symm⟩
  · rintro ⟨rfl, rfl⟩
    exact ⟨rfl, List.suffix_refl _⟩

theorem reads_self (a : α) (ls : List Leaf) : Reads (pure a) ls a ls :=
  reads_pure.mpr ⟨rfl, rfl⟩

theorem not_reads_fail {e : SyntaxError} {a : α} : ¬ Reads (fail e) ls a rest := by
  rintro ⟨hrun, -⟩
  cases (Reply.mk.inj hrun).2.2

theorem not_reads_note {e : SyntaxError} {a : Unit} : ¬ Reads (note e) ls a rest := by
  rintro ⟨hrun, -⟩
  cases (Reply.mk.inj hrun).1

/-- What a reader leaves are the tokens of leaves. -/
theorem exists_rest_eq_map (p : Reader α) (ls : List Leaf) :
    ∃ mid, mid <:+ ls ∧ (p.run (ls.map Leaf.token)).rest = mid.map Leaf.token := by
  obtain ⟨front, hfront⟩ := p.rest_suffix (ls.map Leaf.token)
  obtain ⟨xs, ys, rfl, -, hys⟩ := List.map_eq_append_iff.mp hfront.symm
  exact ⟨ys, List.suffix_append xs ys, hys.symm⟩

/-- Reading is giving a value without notes. -/
theorem reads_of_notes_eq_nil {p : Reader α} {a : α} {mid : List Leaf} (hmid : mid <:+ ls)
    (hnotes : (p.run (ls.map Leaf.token)).notes = [])
    (hrest : (p.run (ls.map Leaf.token)).rest = mid.map Leaf.token)
    (hresult : (p.run (ls.map Leaf.token)).result = .ok a) : Reads p ls a mid := by
  refine ⟨?_, hmid⟩
  rw [← hnotes, ← hrest, ← hresult]

/-- **Sequence.** The second part reads what the first one left. -/
theorem reads_bind {p : Reader α} {f : α → Reader β} {b : β} :
    Reads (p >>= f) ls b rest ↔ ∃ a mid, Reads p ls a mid ∧ Reads (f a) mid b rest := by
  constructor
  · rintro ⟨hrun, hsuffix⟩
    rw [run_bind] at hrun
    cases hresult : (p.run (ls.map Leaf.token)).result with
    | error e =>
      rw [Reply.andThen_of_error hresult] at hrun
      cases (Reply.mk.inj hrun).2.2
    | ok a =>
      rw [Reply.andThen_of_ok hresult, Reply.mk.injEq] at hrun
      -- no notes together means no notes in either part
      obtain ⟨hnotes, hrest, hb⟩ := hrun
      obtain ⟨hnotes₁, hnotes₂⟩ := List.append_eq_nil_iff.mp hnotes
      obtain ⟨mid, hmid, hmap⟩ := p.exists_rest_eq_map ls
      rw [hmap] at hnotes₂ hrest hb
      have hfirst : Reads p ls a mid := reads_of_notes_eq_nil hmid hnotes₁ hmap hresult
      have hsecond : (f a).run (mid.map Leaf.token) = ⟨[], rest.map Leaf.token, .ok b⟩ := by
        rw [← hnotes₂, ← hrest, ← hb]
      refine ⟨a, mid, hfirst, hsecond, ?_⟩
      -- Equal tokens do not make equal leaves, but of two ends of `ls` the shorter one is an end of
      -- the other.
      have hlength := ((f a).rest_suffix (mid.map Leaf.token)).length_le
      rw [hsecond, List.length_map, List.length_map] at hlength
      exact List.suffix_of_suffix_length_le hsuffix hmid hlength
  · rintro ⟨a, mid, ⟨hp, hmid⟩, hf, hrest⟩
    refine ⟨?_, hrest.trans hmid⟩
    have hresult : (p.run (ls.map Leaf.token)).result = .ok a := by rw [hp]
    rw [run_bind, Reply.andThen_of_ok hresult, hp]
    simp [hf]

theorem Reads.bind {p : Reader α} {f : α → Reader β} {a : α} {b : β} {mid : List Leaf}
    (hp : Reads p ls a mid) (hf : Reads (f a) mid b rest) : Reads (p >>= f) ls b rest :=
  reads_bind.mpr ⟨a, mid, hp, hf⟩

/-- To change what is read is to read the same leaves. -/
theorem reads_map {p : Reader α} {f : α → β} {b : β} :
    Reads (f <$> p) ls b rest ↔ ∃ a, Reads p ls a rest ∧ b = f a := by
  change Reads (p >>= fun a => pure (f a)) ls b rest ↔ _
  rw [reads_bind]
  constructor
  · rintro ⟨a, mid, hp, hpure⟩
    obtain ⟨rfl, rfl⟩ := reads_pure.mp hpure
    exact ⟨a, hp, rfl⟩
  · rintro ⟨a, hp, rfl⟩
    exact ⟨a, rest, hp, reads_self _ _⟩

/-- To look at the next token takes no leaf. -/
theorem reads_peek_bind {f : Token → Reader β} {b : β} :
    Reads (peek stop >>= f) ls b rest ↔ Reads (f ((ls.map Leaf.token).headD stop)) ls b rest := by
  rw [reads_bind]
  constructor
  · rintro ⟨t, mid, ⟨hrun, hsuffix⟩, hf⟩
    obtain ⟨-, hmap, ht⟩ := Reply.mk.inj hrun
    -- looking leaves everything where it is
    obtain rfl := eq_of_suffix_of_map_eq hsuffix hmap.symm
    rwa [← Except.ok.inj ht] at hf
  · intro hf
    exact ⟨_, ls, ⟨rfl, List.suffix_refl _⟩, hf⟩

/-- To pass over a token takes the first leaf. -/
theorem reads_skip {l : Leaf} {u : Unit} : Reads skip (l :: ls) u rest ↔ rest = ls := by
  constructor
  · rintro ⟨hrun, hsuffix⟩
    have hmap := (Reply.mk.inj hrun).2.1
    rw [List.map_cons, List.tail_cons] at hmap
    -- both are ends of the leaves, so they are told apart by their lengths
    have hlength : rest.length = ls.length := by simpa using (congrArg List.length hmap).symm
    have hrest : rest <:+ ls :=
      List.suffix_of_suffix_length_le hsuffix (List.suffix_cons l ls) hlength.le
    exact hrest.eq_of_length hlength
  · rintro rfl
    exact ⟨rfl, List.suffix_cons l rest⟩

theorem reads_skip_bind {f : Unit → Reader β} {b : β} {l : Leaf} :
    Reads (skip >>= f) (l :: ls) b rest ↔ Reads (f ()) ls b rest := by
  rw [reads_bind]
  constructor
  · rintro ⟨u, mid, hskip, hf⟩
    obtain rfl := reads_skip.mp hskip
    exact hf
  · intro hf
    exact ⟨(), ls, reads_skip.mpr rfl, hf⟩

/-! ### Looking at the next leaf -/

/-- Leaves begin with a leaf of a kind or do not. -/
theorem beginsNot_or (k : TokenKind) (ls : List Leaf) :
    (∃ t : Terminal k, ∃ ls', ls = t.leaf :: ls') ∨ BeginsNot k ls := by
  cases ls with
  | nil => exact .inr fun l hl => by cases hl
  | cons l ls =>
    -- the first leaf is of the kind, or nothing at the front is
    by_cases h : l.kind = k
    · exact .inl ⟨⟨l, h⟩, ls, rfl⟩
    · right
      intro m hm
      cases hm
      exact h

/-- If leaves do not begin with a kind, the next token is not of the kind, even where it is the end.
-/
theorem kind_headD_ne {k : TokenKind} (hk : stop.kind ≠ k) (h : BeginsNot k ls) :
    ((ls.map Leaf.token).headD stop).kind ≠ k := by
  cases ls with
  | nil => exact hk
  | cons l ls => exact h l rfl

/-- Leaves begin with a leaf of a kind exactly if the next token is of the kind. -/
theorem exists_terminal_iff {k : TokenKind} (hk : stop.kind ≠ k) :
    (∃ (t : Terminal k) (mid : List Leaf), ls = t.leaf :: mid) ↔
      ((ls.map Leaf.token).headD stop).kind = k := by
  constructor
  · rintro ⟨t, mid, rfl⟩
    exact t.kind_eq
  · intro hkind
    rcases beginsNot_or k ls with h | hnot
    · exact h
    · exact absurd hkind (kind_headD_ne hk hnot)

/-- **Choice.** One leaf decides, and it is taken if it is of the kind asked for. -/
theorem reads_ifPeek {k : TokenKind} (hk : stop.kind ≠ k) {p q : Token → Reader α} {a : α} :
    Reads (do let t ← peek stop; if t.kind = k then (do skip; p t) else q t) ls a rest ↔
      (∃ t : Terminal k, ∃ mid, ls = t.leaf :: mid ∧ Reads (p t.leaf.token) mid a rest) ∨
        (BeginsNot k ls ∧ Reads (q ((ls.map Leaf.token).headD stop)) ls a rest) := by
  rw [reads_peek_bind]
  rcases beginsNot_or k ls with ⟨t, ls', rfl⟩ | hls
  · rw [if_pos (by exact t.kind_eq), reads_skip_bind]
    constructor
    · intro h
      exact .inl ⟨t, ls', rfl, h⟩
    · rintro (⟨u, mid, heq, h⟩ | ⟨hnot, -⟩)
      · obtain ⟨rfl, rfl⟩ := Terminal.cons_inj heq
        exact h
      · exact absurd hnot not_beginsNot
  · -- no leaf of this kind comes first, and the end of the input is of another kind
    rw [if_neg (kind_headD_ne hk hls)]
    constructor
    · intro h
      exact .inr ⟨hls, h⟩
    · rintro (⟨u, mid, rfl, -⟩ | ⟨-, h⟩)
      · exact absurd hls not_beginsNot
      · exact h

/-- A test of the next leaf, which stays. -/
theorem reads_next_bind {k : TokenKind} (hk : stop.kind ≠ k) {f : Bool → Reader α} {a : α} :
    Reads (next stop k >>= f) ls a rest ↔
      (∃ t : Terminal k, ∃ mid, ls = t.leaf :: mid ∧ Reads (f true) ls a rest) ∨
        (BeginsNot k ls ∧ Reads (f false) ls a rest) := by
  -- the test takes no leaf and notes nothing
  have hnext : Reads (next stop k >>= f) ls a rest ↔
      Reads (f (((ls.map Leaf.token).headD stop).kind == k)) ls a rest := by
    rw [reads_bind]
    constructor
    · rintro ⟨b, mid, h, hf⟩
      rw [next, reads_peek_bind] at h
      obtain ⟨rfl, rfl⟩ := reads_pure.mp h
      exact hf
    · intro hf
      exact ⟨_, ls, reads_peek_bind.mpr (reads_self _ _), hf⟩
  rw [hnext]
  rcases beginsNot_or k ls with ⟨t, ls', rfl⟩ | hls
  · have hkind : (((t.leaf :: ls').map Leaf.token).headD stop).kind == k := by
      simpa using t.kind_eq
    rw [hkind]
    constructor
    · intro h
      exact .inl ⟨t, ls', rfl, h⟩
    · rintro (⟨-, -, -, h⟩ | ⟨hnot, -⟩)
      · exact h
      · exact absurd hnot not_beginsNot
  · have hkind : (((ls.map Leaf.token).headD stop).kind == k) = false := by
      simpa using kind_headD_ne hk hls
    rw [hkind]
    constructor
    · intro h
      exact .inr ⟨hls, h⟩
    · rintro (⟨u, mid, rfl, -⟩ | ⟨-, h⟩)
      · exact absurd hls not_beginsNot
      · exact h

/-- **Choice without taking.** One leaf decides, and it stays. -/
theorem reads_ifNext {k : TokenKind} (hk : stop.kind ≠ k) {p q : Reader α} {a : α} :
    Reads (do if ← next stop k then p else q) ls a rest ↔
      (∃ t : Terminal k, ∃ mid, ls = t.leaf :: mid ∧ Reads p ls a rest) ∨
        (BeginsNot k ls ∧ Reads q ls a rest) :=
  reads_next_bind hk

/-- An expected token is the first leaf. -/
theorem reads_expect {k : TokenKind} (hk : stop.kind ≠ k) {expected : Expectation} {t : Token} :
    Reads (expect stop k expected) ls t rest ↔
      ∃ u : Terminal k, t = u.leaf.token ∧ ls = u.leaf :: rest := by
  rw [expect, reads_ifPeek hk]
  constructor
  · rintro (⟨u, mid, rfl, h⟩ | ⟨-, h⟩)
    · obtain ⟨rfl, rfl⟩ := reads_pure.mp h
      exact ⟨u, rfl, rfl⟩
    · exact absurd h not_reads_fail
  · rintro ⟨u, rfl, rfl⟩
    exact .inl ⟨u, rest, rfl, reads_self _ _⟩

theorem reads_token {k : TokenKind} (hk : stop.kind ≠ k) {t : Token} :
    Reads (token stop k) ls t rest ↔ ∃ u : Terminal k, t = u.leaf.token ∧ ls = u.leaf :: rest :=
  reads_expect hk

theorem reads_token_cons {k : TokenKind} (hk : stop.kind ≠ k) (u : Terminal k) (rest : List Leaf) :
    Reads (token stop k) (u.leaf :: rest) u.leaf.token rest :=
  (reads_token hk).mpr ⟨u, rfl, rfl⟩

/-- A name is read from the first leaf, and from that alone. -/
theorem reads_ident (hstop : stop.kind = .endOfInput) {expected : Expectation} {i : Ident} :
    Reads (ident stop expected) ls i rest ↔
      ∃ u : Terminal .ident, i = u.ident ∧ ls = u.leaf :: rest := by
  rw [ident, reads_bind]
  constructor
  · rintro ⟨t, mid, ht, h⟩
    obtain ⟨u, rfl, rfl⟩ := (reads_expect (by simp [hstop])).mp ht
    obtain ⟨rfl, rfl⟩ := reads_pure.mp h
    exact ⟨u, rfl, rfl⟩
  · rintro ⟨u, rfl, rfl⟩
    exact ⟨u.leaf.token, rest, (reads_expect (by simp [hstop])).mpr ⟨u, rfl, rfl⟩,
      reads_self _ _⟩

theorem reads_ident_cons (hstop : stop.kind = .endOfInput) (expected : Expectation)
    (u : Terminal .ident) (rest : List Leaf) :
    Reads (ident stop expected) (u.leaf :: rest) u.ident rest :=
  (reads_ident hstop).mpr ⟨u, rfl, rfl⟩

/-! ### Repetition -/

section Many

variable {τ : Type}

/-- Each tree of a list ends where the next one or, behind the last, the rest begins. -/
def EachEnds (leaves : τ → List Leaf) (Ends : τ → List Leaf → Prop) (rest : List Leaf) :
    List τ → Prop
  | [] => True
  | t :: ts => Ends t (ts.flatMap leaves ++ rest) ∧ EachEnds leaves Ends rest ts

variable {round : Reader (Option α)}

/-- A repetition is done as soon as a round yields nothing. -/
theorem reads_many_of_none {as : List α} {mid : List Leaf} (h : Reads round ls none mid) :
    Reads (many round) ls as rest ↔ as = [] ∧ rest = mid := by
  obtain ⟨hrun, hmid⟩ := h
  have hmany : (many round).run (ls.map Leaf.token) = ⟨[], mid.map Leaf.token, .ok []⟩ := by
    change manyFrom round (ls.map Leaf.token) = _
    rw [manyFrom_of_none (by rw [hrun]), hrun]
  constructor
  · rintro ⟨hrun', hsuffix⟩
    rw [hmany] at hrun'
    obtain ⟨-, hmap, has⟩ := Reply.mk.inj hrun'
    refine ⟨(Except.ok.inj has).symm, ?_⟩
    -- both are suffixes of the leaves, so their length tells them apart
    have hlength : rest.length = mid.length := by simpa using (congrArg List.length hmap).symm
    exact (List.suffix_of_suffix_length_le hsuffix hmid hlength.le).eq_of_length hlength
  · rintro ⟨rfl, rfl⟩
    exact ⟨hmany, hmid⟩

/-- A round that yields something and takes a leaf is followed by a repetition on what is left. -/
theorem reads_many_of_some {as : List α} {mid : List Leaf} {a : α}
    (h : Reads round ls (some a) mid) (hlt : mid.length < ls.length) :
    Reads (many round) ls as rest ↔
      ∃ as', as = a :: as' ∧ Reads (many round) mid as' rest := by
  obtain ⟨hrun, hmid⟩ := h
  have hmany : (many round).run (ls.map Leaf.token) =
      ⟨((many round).run (mid.map Leaf.token)).notes, ((many round).run (mid.map Leaf.token)).rest,
        ((many round).run (mid.map Leaf.token)).result.map (a :: ·)⟩ := by
    change manyFrom round (ls.map Leaf.token) = _
    rw [manyFrom_of_some (by rw [hrun]) (by rw [hrun]; simpa using hlt), hrun]
    rfl
  constructor
  · rintro ⟨hrun', hsuffix⟩
    rw [hmany] at hrun'
    obtain ⟨hnotes, hrest, has⟩ := Reply.mk.inj hrun'
    cases hresult : ((many round).run (mid.map Leaf.token)).result with
    | error e =>
      rw [hresult] at has
      cases has
    | ok as' =>
      rw [hresult] at has
      refine ⟨as', (Except.ok.inj has).symm, reads_of_notes_eq_nil ?_ hnotes hrest hresult⟩
      -- what the further rounds leave is a suffix of what they were given
      have hlength := ((many round).rest_suffix (mid.map Leaf.token)).length_le
      rw [hrest, List.length_map, List.length_map] at hlength
      exact List.suffix_of_suffix_length_le hsuffix hmid hlength
  · rintro ⟨as', rfl, hrun', hsuffix⟩
    refine ⟨?_, hsuffix.trans hmid⟩
    rw [hmany, hrun']
    rfl

/-- A repetition without an error begins with a round without an error. -/
theorem exists_reads_round {as : List α} (h : Reads (many round) ls as rest) :
    ∃ a? mid, Reads round ls a? mid := by
  obtain ⟨mid, hmid, hrest⟩ := round.exists_rest_eq_map ls
  obtain ⟨hrun, -⟩ := h
  change manyFrom round (ls.map Leaf.token) = _ at hrun
  cases hresult : (round.run (ls.map Leaf.token)).result with
  | error e =>
    rw [manyFrom_of_error hresult] at hrun
    cases (Reply.mk.inj hrun).2.2
  | ok a? =>
    refine ⟨a?, mid, reads_of_notes_eq_nil hmid ?_ hrest hresult⟩
    -- the notes of the round are among those of the repetition, of which there are none
    cases a? with
    | none =>
      rw [manyFrom_of_none hresult] at hrun
      exact (Reply.mk.inj hrun).1
    | some a =>
      by_cases hlt : (round.run (ls.map Leaf.token)).rest.length < (ls.map Leaf.token).length
      · rw [manyFrom_of_some hresult hlt] at hrun
        exact (List.append_eq_nil_iff.mp (Reply.mk.inj hrun).1).1
      · rw [manyFrom_of_idle hresult hlt] at hrun
        exact (Reply.mk.inj hrun).1

/-- A repetition reads nothing exactly if its first round yields nothing. -/
theorem reads_many_nil : Reads (many round) ls [] rest ↔ Reads round ls none rest := by
  constructor
  · intro h
    obtain ⟨a?, mid, hround⟩ := exists_reads_round h
    cases a? with
    | none =>
      obtain ⟨-, rfl⟩ := (reads_many_of_none hround).mp h
      exact hround
    | some a =>
      -- such a round puts its value into the list, whether it moved on or not
      obtain ⟨hrun, -⟩ := h
      have hresult : (round.run (ls.map Leaf.token)).result = .ok (some a) := by rw [hround.1]
      change manyFrom round (ls.map Leaf.token) = _ at hrun
      by_cases hlt : (round.run (ls.map Leaf.token)).rest.length < (ls.map Leaf.token).length
      · rw [manyFrom_of_some hresult hlt] at hrun
        have hmap := (Reply.mk.inj hrun).2.2
        cases hrest : (manyFrom round (round.run (ls.map Leaf.token)).rest).result <;>
          rw [hrest] at hmap <;> cases hmap
      · rw [manyFrom_of_idle hresult hlt] at hrun
        cases (Reply.mk.inj hrun).2.2
  · intro h
    exact (reads_many_of_none h).mpr ⟨rfl, rfl⟩

/-- **Repetition.** If a round reads a tree or is done, a repetition reads a list of trees and then
is done. Trees have leaves, so that every round reads something. -/
theorem reads_many (leaves : τ → List Leaf) (value : τ → α) (Ends : τ → List Leaf → Prop)
    (Done : List Leaf → List Leaf → Prop) (hne : ∀ t, leaves t ≠ [])
    (hsome : ∀ ls a mid, Reads round ls (some a) mid ↔
      ∃ t, ls = leaves t ++ mid ∧ a = value t ∧ Ends t mid)
    (hnone : ∀ ls mid, Reads round ls none mid ↔ Done ls mid) {as : List α} :
    Reads (many round) ls as rest ↔
      ∃ ts mid, ls = ts.flatMap leaves ++ mid ∧ as = ts.map value ∧ Done mid rest ∧
        EachEnds leaves Ends mid ts := by
  have hlt : ∀ (t : τ) (mid : List Leaf), mid.length < (leaves t ++ mid).length := fun t mid => by
    have := List.length_pos_iff.mpr (hne t)
    rw [List.length_append]
    omega
  constructor
  · intro h
    -- on the length of what is left, as the repetition itself
    induction hn : ls.length using Nat.strongRecOn generalizing ls as with
    | ind n ih =>
      obtain ⟨a?, mid, hround⟩ := exists_reads_round h
      cases a? with
      | none =>
        obtain ⟨rfl, rfl⟩ := (reads_many_of_none hround).mp h
        exact ⟨[], ls, rfl, rfl, (hnone _ _).mp hround, trivial⟩
      | some a =>
        obtain ⟨t, rfl, rfl, hends⟩ := (hsome _ _ _).mp hround
        obtain ⟨as', rfl, hrest⟩ := (reads_many_of_some hround (hlt t mid)).mp h
        obtain ⟨ts, last, rfl, rfl, hdone, heach⟩ := ih _ (hn ▸ hlt t mid) hrest rfl
        exact ⟨t :: ts, last, by simp, rfl, hdone, hends, heach⟩
  · -- the other way round on the trees, each of which is read by one round
    rintro ⟨ts, mid, rfl, rfl, hdone, hends⟩
    induction ts with
    | nil => exact (reads_many_of_none ((hnone _ _).mpr hdone)).mpr ⟨rfl, rfl⟩
    | cons t ts ih =>
      rw [List.flatMap_cons, List.append_assoc]
      have hround := (hsome _ _ _).mpr ⟨t, rfl, rfl, hends.1⟩
      exact (reads_many_of_some hround (hlt t _)).mpr ⟨_, rfl, ih hends.2⟩

end Many

end Reader

/-! ### Terms -/

/-- A term ends where the rest begins. A name does not if an argument list follows. -/
def TermTree.Ends {s : TermSort} : TermTree s → List Leaf → Prop
  | .name _, rest => BeginsNot .leftParen rest
  | _, _ => True

/-- In front of anything but an opening parenthesis every term ends. -/
theorem TermTree.ends_of_beginsNot {s : TermSort} (t : TermTree s) {rest : List Leaf}
    (h : BeginsNot .leftParen rest) : t.Ends rest := by
  cases t with
  | name head => exact h
  | _ => trivial

namespace MoreArgs

variable {s : TermSort} {n : Nat}

/-- A further argument that nests at most `n` deep, and the comma in front of it. -/
abbrev Round (s : TermSort) (n : Nat) : Type :=
  Terminal .comma × { t : TermTree s // t.depth ≤ n }

/-- The leaves of a comma and a further argument. -/
def Round.leaves (r : Round s n) : List Leaf :=
  r.1.leaf :: r.2.1.leaves

/-- What the further argument stands for. -/
def Round.value (r : Round s n) : s.Value :=
  r.2.1.value

/-- The further argument ends where the rest begins. -/
def Round.Ends (r : Round s n) : List Leaf → Prop :=
  r.2.1.Ends

/-- Further arguments are a list of rounds. -/
theorem exists_rounds : ∀ m : MoreArgs s, m.depth ≤ n →
    ∃ rs : List (Round s n), rs.flatMap Round.leaves = m.leaves ∧
      rs.map Round.value = m.values
  | .nil, _ => ⟨[], rfl, rfl⟩
  | .cons comma arg others, h => by
    -- the depth of a list is that of its deepest element
    obtain ⟨harg, hothers⟩ := Nat.max_le.mp h
    obtain ⟨rs, hleaves, hvalues⟩ := exists_rounds others hothers
    refine ⟨(comma, ⟨arg, harg⟩) :: rs, ?_, ?_⟩
    · rw [List.flatMap_cons, hleaves]
      rfl
    · rw [List.map_cons, hvalues]
      rfl

/-- And a list of rounds is further arguments. -/
theorem exists_of_rounds (rs : List (Round s n)) :
    ∃ m : MoreArgs s, m.depth ≤ n ∧ m.leaves = rs.flatMap Round.leaves ∧
      m.values = rs.map Round.value := by
  induction rs with
  | nil => exact ⟨.nil, Nat.zero_le n, rfl, rfl⟩
  | cons r rs ih =>
    obtain ⟨m, hdepth, hleaves, hvalues⟩ := ih
    obtain ⟨comma, arg, harg⟩ := r
    refine ⟨.cons comma arg m, Nat.max_le.mpr ⟨harg, hdepth⟩, ?_, ?_⟩
    · rw [MoreArgs.leaves, hleaves]
      rfl
    · rw [MoreArgs.values, hvalues]
      rfl

/-- No round begins with an opening parenthesis, since it begins with a comma. -/
theorem beginsNot_rounds (rs : List (Round s n)) {rest : List Leaf}
    (h : BeginsNot .leftParen rest) : BeginsNot .leftParen (rs.flatMap Round.leaves ++ rest) := by
  cases rs with
  | nil => exact h
  | cons r rs => exact r.1.beginsNot (by decide) _

end MoreArgs

namespace Reader

section Terms

variable {s : TermSort} {n : Nat} {stop : Token} {ls rest : List Leaf}

/-- The reader of expressions or of patterns. -/
def term (s : TermSort) (stop : Token) (n : Nat) : Reader s.Value :=
  match s with
  | .expression => expr stop n
  | .pattern => pattern stop n

/-- A reader takes exactly the terms that nest at most `n` deep. -/
def ReadsTerms (s : TermSort) (n : Nat) (element : Reader s.Value) : Prop :=
  ∀ ls v rest, Reads element ls v rest ↔
    ∃ t : TermTree s, t.depth ≤ n ∧ ls = t.leaves ++ rest ∧ v = t.value ∧ t.Ends rest

/-- A reader takes exactly the insides of argument lists that may stand in a term that nests at most
`n` deep. -/
def ReadsArgs (s : TermSort) (n : Nat) (inner : Span → Reader (List s.Value)) : Prop :=
  ∀ opening ls vs (closing : Terminal .rightParen) rest,
    Reads (inner opening) ls vs (closing.leaf :: rest) ↔
      ∃ args : ArgsTree s, args.depth < n ∧ ls = args.leaves ++ closing.leaf :: rest ∧
        vs = args.values

/-- Further arguments, as the rounds of a repetition. -/
theorem reads_commaRounds (hstop : stop.kind = .endOfInput) {element : Reader s.Value}
    (helement : ReadsTerms s n element) {vs : List s.Value} :
    Reads (many do if ← next stop .comma then (do skip; return some (← element)) else return none)
        ls vs rest ↔
      ∃ (rs : List (MoreArgs.Round s n)) (mid : List Leaf),
        ls = rs.flatMap MoreArgs.Round.leaves ++ mid ∧ vs = rs.map MoreArgs.Round.value ∧
          (BeginsNot .comma mid ∧ rest = mid) ∧
          EachEnds MoreArgs.Round.leaves MoreArgs.Round.Ends mid rs := by
  have hcomma : stop.kind ≠ .comma := by simp [hstop]
  -- a round is a comma with a term, and the rounds end where no comma follows
  refine reads_many MoreArgs.Round.leaves MoreArgs.Round.value MoreArgs.Round.Ends
    (fun ls mid => BeginsNot .comma ls ∧ mid = ls) (fun r => List.cons_ne_nil _ _)
    (fun ls v mid => ?_) (fun ls mid => ?_)
  · rw [reads_ifNext hcomma]
    constructor
    · rintro (⟨comma, ms, rfl, h⟩ | ⟨-, h⟩)
      · rw [reads_skip_bind, reads_bind] at h
        obtain ⟨w, last, helem, hpure⟩ := h
        obtain ⟨hv, rfl⟩ := reads_pure.mp hpure
        cases hv
        obtain ⟨t, hdepth, rfl, rfl, hends⟩ := (helement _ _ _).mp helem
        exact ⟨(comma, ⟨t, hdepth⟩), rfl, rfl, hends⟩
      · cases (reads_pure.mp h).1
    · rintro ⟨⟨comma, t, hdepth⟩, rfl, rfl, hends⟩
      refine .inl ⟨comma, _, rfl, ?_⟩
      have helem := (helement _ _ _).mpr ⟨t, hdepth, rfl, rfl, hends⟩
      exact reads_skip_bind.mpr (helem.bind (reads_self _ _))
  · rw [reads_ifNext hcomma]
    constructor
    · rintro (⟨comma, ms, rfl, h⟩ | ⟨hnot, h⟩)
      · rw [reads_skip_bind, reads_bind] at h
        obtain ⟨w, last, -, hpure⟩ := h
        cases (reads_pure.mp hpure).1
      · exact ⟨hnot, (reads_pure.mp h).2⟩
    · rintro ⟨hnot, rfl⟩
      exact .inr ⟨hnot, reads_self _ _⟩

/-- So each argument ends where the next comma stands, and the last one where the list is closed. -/
theorem eachEnds_rounds (rs : List (MoreArgs.Round s n)) (h : BeginsNot .leftParen rest) :
    EachEnds MoreArgs.Round.leaves MoreArgs.Round.Ends rest rs := by
  induction rs with
  | nil => trivial
  | cons r rs ih => exact ⟨r.2.1.ends_of_beginsNot (MoreArgs.beginsNot_rounds rs h), ih⟩

/-- **Arguments with commas between them**, in front of the parenthesis that closes the list. -/
theorem reads_commaSeparated (hstop : stop.kind = .endOfInput) {element : Reader s.Value}
    (helement : ReadsTerms s n element) {vs : List s.Value} {closing : Terminal .rightParen} :
    Reads (commaSeparated stop element) ls vs (closing.leaf :: rest) ↔
      ∃ (first : TermTree s) (others : MoreArgs s), first.depth ≤ n ∧ others.depth ≤ n ∧
        ls = first.leaves ++ (others.leaves ++ closing.leaf :: rest) ∧
        vs = first.value :: others.values := by
  rw [commaSeparated, reads_bind]
  constructor
  · rintro ⟨v, mid, hfirst, h⟩
    obtain ⟨vs', mid', hothers, hpure⟩ := reads_bind.mp h
    obtain ⟨rfl, rfl⟩ := reads_pure.mp hpure
    obtain ⟨first, hdepth, rfl, rfl, -⟩ := (helement _ _ _).mp hfirst
    obtain ⟨rs, last, rfl, rfl, ⟨-, rfl⟩, -⟩ := (reads_commaRounds hstop helement).mp hothers
    obtain ⟨others, hdepth', hleaves, hvalues⟩ := MoreArgs.exists_of_rounds rs
    exact ⟨first, others, hdepth, hdepth', by rw [hleaves], by rw [hvalues]⟩
  · rintro ⟨first, others, hdepth, hdepth', rfl, rfl⟩
    obtain ⟨rs, hleaves, hvalues⟩ := others.exists_rounds hdepth'
    -- the closing parenthesis ends the last argument and the repetition
    have hparen : BeginsNot .leftParen (closing.leaf :: rest) := closing.beginsNot (by decide) rest
    have hcomma : BeginsNot .comma (closing.leaf :: rest) := closing.beginsNot (by decide) rest
    have hfirst := (helement (first.leaves ++ (others.leaves ++ closing.leaf :: rest)) _ _).mpr
      ⟨first, hdepth, rfl, rfl, first.ends_of_beginsNot (others.beginsNot_append closing rest)⟩
    have hothers := (reads_commaRounds hstop helement).mpr
      ⟨rs, _, rfl, rfl, ⟨hcomma, rfl⟩, eachEnds_rounds rs hparen⟩
    rw [hleaves, hvalues] at hothers
    exact ⟨_, _, hfirst, hothers.bind (reads_self _ _)⟩

/-- An argument list allows one level less to its arguments than to itself. -/
theorem readsArgs_argumentList (hstop : stop.kind = .endOfInput) {element : Reader s.Value}
    (helement : ReadsTerms s n element) :
    ReadsArgs s (n + 1) fun _ => argumentList stop element := by
  intro opening ls vs closing rest
  have hparen : stop.kind ≠ .rightParen := by simp [hstop]
  simp only [argumentList]
  rw [reads_ifNext hparen]
  constructor
  · -- the list closes at once or has a first argument, in the reader as in the tree
    rintro (⟨-, -, -, h⟩ | ⟨-, h⟩)
    · obtain ⟨rfl, rfl⟩ := reads_pure.mp h
      exact ⟨.none, Nat.zero_lt_succ n, rfl, rfl⟩
    · obtain ⟨first, others, hdepth, hdepth', rfl, rfl⟩ :=
        (reads_commaSeparated hstop helement).mp h
      refine ⟨.some first others, Nat.lt_succ_of_le (Nat.max_le.mpr ⟨hdepth, hdepth'⟩), ?_, rfl⟩
      simp [ArgsTree.leaves]
  · rintro ⟨args, hdepth, rfl, rfl⟩
    cases args with
    | none => exact .inl ⟨closing, rest, rfl, reads_self _ _⟩
    | some first others =>
      obtain ⟨hfirst, hothers⟩ := Nat.max_le.mp (Nat.le_of_lt_succ hdepth)
      rw [ArgsTree.leaves, List.append_assoc]
      refine .inr ⟨first.beginsNot_append (by decide) (by decide) _, ?_⟩
      exact (reads_commaSeparated hstop helement).mpr ⟨first, others, hfirst, hothers, rfl, rfl⟩

/-- Where no level is left, no argument list is read, and no tree is shallow enough. -/
theorem readsArgs_fail {e : Span → SyntaxError} :
    ReadsArgs s 0 fun opening => fail (e opening) := by
  intro opening ls vs closing rest
  constructor
  · intro h
    exact absurd h not_reads_fail
  · rintro ⟨args, hdepth, -⟩
    exact absurd hdepth (Nat.not_lt_zero _)

/-- Behind a name stands an argument list, or no opening parenthesis. -/
theorem reads_arguments (hstop : stop.kind = .endOfInput) {name : Ident}
    {inner : Span → Reader (List s.Value)} (hinner : ReadsArgs s n inner)
    {r : List s.Value × Span} :
    Reads (arguments stop name inner) ls r rest ↔
      (BeginsNot .leftParen ls ∧ rest = ls ∧ r = ([], name.span)) ∨
        ∃ (opening : Terminal .leftParen) (args : ArgsTree s) (closing : Terminal .rightParen),
          args.depth < n ∧ ls = opening.leaf :: (args.leaves ++ closing.leaf :: rest) ∧
            r = (args.values, closing.span) := by
  have hopening : stop.kind ≠ .leftParen := by simp [hstop]
  have hclosing : stop.kind ≠ .rightParen := by simp [hstop]
  rw [arguments, reads_ifPeek hopening]
  constructor
  · rintro (⟨opening, mid, rfl, h⟩ | ⟨hnot, h⟩)
    · obtain ⟨vs, mid', hargs, h⟩ := reads_bind.mp h
      obtain ⟨t, mid'', hclose, hpure⟩ := reads_bind.mp h
      obtain ⟨closing, rfl, rfl⟩ := (reads_token hclosing).mp hclose
      obtain ⟨rfl, rfl⟩ := reads_pure.mp hpure
      -- the closing parenthesis had to be found first, as the arguments end in front of it
      obtain ⟨args, hdepth, rfl, rfl⟩ := (hinner _ _ _ _ _).mp hargs
      exact .inr ⟨opening, args, closing, hdepth, rfl, rfl⟩
    · obtain ⟨rfl, rfl⟩ := reads_pure.mp h
      exact .inl ⟨hnot, rfl, rfl⟩
  · rintro (⟨hnot, rfl, rfl⟩ | ⟨opening, args, closing, hdepth, rfl, rfl⟩)
    · exact .inr ⟨hnot, reads_self _ _⟩
    · have hargs := (hinner opening.span (args.leaves ++ closing.leaf :: rest) _ closing rest).mpr
        ⟨args, hdepth, rfl, rfl⟩
      have hclose := reads_token_cons hclosing closing rest
      exact .inl ⟨opening, _, rfl, hargs.bind (hclose.bind (reads_self _ _))⟩

/-- A name and what may stand behind it. -/
theorem reads_headed (hstop : stop.kind = .endOfInput) {expected : Expectation}
    {inner : Span → Reader (List s.Value)} (hinner : ReadsArgs s n inner) {v : s.Value} :
    Reads (do
        let name ← ident stop expected
        let (args, last) ← arguments stop name inner
        return s.apply (name.span.merge last) name args) ls v rest ↔
      ∃ t : TermTree s, t.depth ≤ n ∧ ls = t.leaves ++ rest ∧ v = t.value ∧ t.Ends rest ∧
        BeginsNot .underscore ls := by
  rw [reads_bind]
  constructor
  · rintro ⟨i, mid, hident, h⟩
    obtain ⟨head, rfl, rfl⟩ := (reads_ident hstop).mp hident
    obtain ⟨r, mid', hargs, hpure⟩ := reads_bind.mp h
    obtain ⟨rfl, rfl⟩ := reads_pure.mp hpure
    have hunderscore : BeginsNot .underscore (head.leaf :: mid) := head.beginsNot (by decide) mid
    rcases (reads_arguments hstop hinner).mp hargs with
      ⟨hnot, rfl, rfl⟩ | ⟨opening, args, closing, hdepth, rfl, rfl⟩
    · refine ⟨.name head, Nat.zero_le n, rfl, ?_, hnot, hunderscore⟩
      simp [TermTree.value]
    · exact ⟨.call head opening args closing, hdepth, by simp [TermTree.leaves], rfl, trivial,
        hunderscore⟩
  · rintro ⟨t, hdepth, rfl, rfl, hends, hunderscore⟩
    -- a name alone may not be followed by a parenthesis, or it would be a call
    cases t with
    | wildcard underscore => exact absurd hunderscore not_beginsNot
    | name head =>
      have hargs : Reads (arguments stop head.ident inner) rest ([], head.span) rest :=
        (reads_arguments hstop hinner).mpr (.inl ⟨hends, rfl, rfl⟩)
      refine ⟨_, _, reads_ident_cons hstop expected head rest, hargs.bind ?_⟩
      refine reads_pure.mpr ⟨?_, rfl⟩
      simp [TermTree.value]
    | call head opening args closing =>
      have hargs : Reads (arguments stop head.ident inner)
          (opening.leaf :: (args.leaves ++ closing.leaf :: rest)) (args.values, closing.span)
          rest :=
        (reads_arguments hstop hinner).mpr (.inr ⟨opening, args, closing, hdepth, rfl, rfl⟩)
      simp only [TermTree.leaves, List.cons_append, List.append_assoc, List.nil_append]
      exact ⟨_, _, reads_ident_cons hstop expected head _, hargs.bind (reads_self _ _)⟩

/-- Expressions are read exactly if terms without a wildcard derive them. -/
theorem readsTerms_exprWith (hstop : stop.kind = .endOfInput)
    {inner : Span → Reader (List Expr)} (hinner : ReadsArgs .expression n inner) :
    ReadsTerms .expression n (exprWith stop inner) := by
  intro ls v rest
  refine (reads_headed hstop hinner).trans ?_
  constructor
  · rintro ⟨t, hdepth, hls, hv, hends, -⟩
    exact ⟨t, hdepth, hls, hv, hends⟩
  · rintro ⟨t, hdepth, rfl, hv, hends⟩
    refine ⟨t, hdepth, rfl, hv, hends, ?_⟩
    -- no expression begins with the underscore
    cases t with
    | name head => exact head.beginsNot (by decide) _
    | call head opening args closing => exact head.beginsNot (by decide) _

/-- Patterns are read exactly if terms derive them, a wildcard among them. -/
theorem readsTerms_patternWith (hstop : stop.kind = .endOfInput)
    {inner : Span → Reader (List Pattern)} (hinner : ReadsArgs .pattern n inner) :
    ReadsTerms .pattern n (patternWith stop inner) := by
  intro ls v rest
  have hunderscore : stop.kind ≠ .underscore := by simp [hstop]
  refine (reads_ifPeek hunderscore).trans ?_
  constructor
  · rintro (⟨underscore, mid, rfl, h⟩ | ⟨-, h⟩)
    · obtain ⟨rfl, rfl⟩ := reads_pure.mp h
      exact ⟨.wildcard underscore, Nat.zero_le n, rfl, rfl, trivial⟩
    · obtain ⟨t, hdepth, hls, hv, hends, -⟩ := (reads_headed hstop hinner).mp h
      exact ⟨t, hdepth, hls, hv, hends⟩
  · rintro ⟨t, hdepth, rfl, rfl, hends⟩
    rcases beginsNot_or .underscore (t.leaves ++ rest) with ⟨u, mid, hls⟩ | hnot
    · -- an underscore comes first just in the wildcard
      cases t with
      | wildcard underscore => exact .inl ⟨underscore, rest, rfl, reads_self _ _⟩
      | name head => exact absurd hls (Terminal.cons_ne (by decide))
      | call head opening args closing => exact absurd hls (Terminal.cons_ne (by decide))
    · exact .inr ⟨hnot, (reads_headed hstop hinner).mpr ⟨t, hdepth, rfl, rfl, hends, hnot⟩⟩

/-- **Terms.** An expression or a pattern is read exactly if a term derives what is taken. -/
theorem readsTerms_term (hstop : stop.kind = .endOfInput) (s : TermSort) (n : Nat) :
    ReadsTerms s n (term s stop n) := by
  -- on the levels that are left, as the readers are defined
  induction n with
  | zero =>
    cases s with
    | expression => exact readsTerms_exprWith hstop readsArgs_fail
    | pattern => exact readsTerms_patternWith hstop readsArgs_fail
  | succ n ih =>
    have hinner := readsArgs_argumentList hstop ih
    cases s with
    | expression => exact readsTerms_exprWith hstop hinner
    | pattern => exact readsTerms_patternWith hstop hinner

end Terms

end Reader

end MatchCheck
