import Mathlib.Data.Prod.Lex
import Mathlib.Data.Set.Card
import MatchCheck.Proofs.Diagnostic.Carets

/-!
# Places are in the order of offsets

The place of an offset is found by stepping over the characters in front of it. What comes out can
be said without any steps. The line is one more than the number of line ends that end at the offset
or before it (`Source.line_position`), and the column is one more than the UTF-16 length of what
stands between the start of the line and the offset (`Source.exists_lineStart`). A line end is told
by the offset at which it ends: the two characters of one that is written with two end at one
offset, and between them no line end ends.

Every step goes right or down (`Position.lineColumn_lt_step`), so that of two offsets between
characters the earlier one has the earlier place. A span is given by its two offsets, and merging
spans takes the first start and the last stop (`Source.positions_embed_offsets`).
-/

namespace MatchCheck

/-! ### Line ends by the offsets at which they end -/

namespace Text

/-- A line end of a text ends at an offset. -/
def LineEndsAt (cs : List Char) (offset : Nat) : Prop :=
  ∃ before ending rest, cs = before ++ (ending ++ rest) ∧ IsLineEnd ending rest ∧
    byteLength (before ++ ending) = offset

/-- A line of a text starts at an offset: at the front or behind a line end. -/
def LineStartsAt (cs : List Char) (offset : Nat) : Prop :=
  offset = 0 ∨ LineEndsAt cs offset

/-- The offsets up to the given one at which line ends end. -/
def lineEndsUpTo (cs : List Char) (offset : Nat) : Set Nat :=
  {e | e ≤ offset ∧ LineEndsAt cs e}

/-- The offsets up to the given one at which lines start. -/
def lineStartsUpTo (cs : List Char) (offset : Nat) : Set Nat :=
  {s | s ≤ offset ∧ LineStartsAt cs s}

variable {cs front rest : List Char} {c : Char} {e offset : Nat}

theorem LineEndsAt.boundary (h : LineEndsAt cs e) : Boundary cs e := by
  obtain ⟨before, ending, rest, rfl, -, rfl⟩ := h
  exact ⟨before ++ ending, rest, (List.append_assoc _ _ _).symm, rfl⟩

theorem LineEndsAt.pos (h : LineEndsAt cs e) : 0 < e := by
  obtain ⟨before, ending, rest, -, hending, rfl⟩ := h
  have hpos : 0 < byteLength ending := by
    cases hending <;> decide
  rw [byteLength_append]
  omega

theorem finite_lineEndsUpTo (cs : List Char) (offset : Nat) : (lineEndsUpTo cs offset).Finite :=
  (Set.finite_le_nat offset).subset fun _ he => he.1

/-- Two cuts of a text at the same offset are the same. -/
theorem append_inj_of_byteLength {xs ys : List Char} (h : front ++ rest = xs ++ ys)
    (hlength : byteLength front = byteLength xs) : front = xs ∧ rest = ys := by
  -- one cut is in front of the other, with nothing in between
  obtain ⟨mid, rfl, rfl⟩ := exists_mid h hlength.ge
  have hnil : mid = [] := by
    by_contra hne
    have hpos := byteLength_pos hne
    rw [byteLength_append] at hlength
    omega
  subst hnil
  exact ⟨List.append_nil _, rfl⟩

theorem IsLineEnd.exists_concat {ending : List Char} (h : IsLineEnd ending rest) :
    ∃ init c, ending = init ++ [c] ∧ endsLine c rest := by
  cases h with
  | lineFeed => exact ⟨[], '\n', rfl, rfl⟩
  | returnAndFeed => exact ⟨['\r'], '\n', rfl, rfl⟩
  | carriageReturn h => exact ⟨[], '\r', rfl, by simp [endsLine, h]⟩

theorem isLineEnd_of_endsLine (h : endsLine c rest) : IsLineEnd [c] rest := by
  simp only [endsLine, Bool.or_eq_true, Bool.and_eq_true, beq_iff_eq, bne_iff_ne] at h
  rcases h with rfl | ⟨rfl, hnext⟩
  · exact .lineFeed rest
  · exact .carriageReturn hnext

/-- **A line end ends behind a character exactly if the character ends the line.** -/
theorem lineEndsAt_concat_iff :
    LineEndsAt (front ++ c :: rest) (byteLength (front ++ [c])) ↔ endsLine c rest := by
  constructor
  · rintro ⟨before, ending, behind, heq, hending, hlength⟩
    obtain ⟨init, d, rfl, hends⟩ := hending.exists_concat
    -- both cuts are at one offset, so the last character of the line end is `c`
    have hcut : ((before ++ init) ++ [d]) ++ behind = (front ++ [c]) ++ rest := by
      simpa using heq.symm
    rw [← List.append_assoc] at hlength
    obtain ⟨hfront, rfl⟩ := append_inj_of_byteLength hcut hlength
    obtain ⟨-, hd⟩ := List.append_inj' hfront rfl
    obtain ⟨rfl, -⟩ := List.cons.inj hd
    exact hends
  · intro hends
    exact ⟨front, [c], rest, rfl, isLineEnd_of_endsLine hends, rfl⟩

/-- Between the two ends of a character there is no boundary. -/
theorem Boundary.le_or_le (h : Boundary (front ++ c :: rest) e) :
    e ≤ byteLength front ∨ byteLength (front ++ [c]) ≤ e := by
  obtain ⟨upto, back, heq, rfl⟩ := h
  rcases Nat.lt_or_ge (byteLength front) (byteLength upto) with hlt | hle
  · right
    -- a cut behind the front has at least the character in front of it
    obtain ⟨mid, rfl, hmid, hne⟩ := exists_mid_of_lt heq.symm hlt
    obtain ⟨d, more, rfl⟩ := List.exists_cons_of_ne_nil hne
    obtain ⟨rfl, -⟩ := List.cons.inj hmid
    simp only [byteLength_append, byteLength_cons, byteLength_nil]
    omega
  · exact .inl hle

/-- Up to behind a character, a line end ends in front of it or right behind it. -/
theorem LineEndsAt.le_or_eq (h : LineEndsAt (front ++ c :: rest) e)
    (hle : e ≤ byteLength (front ++ [c])) :
    e ≤ byteLength front ∨ e = byteLength (front ++ [c]) ∧ endsLine c rest := by
  rcases h.boundary.le_or_le with hbefore | hbehind
  · exact .inl hbefore
  · obtain rfl : e = byteLength (front ++ [c]) := le_antisymm hle hbehind
    exact .inr ⟨rfl, lineEndsAt_concat_iff.mp h⟩

theorem byteLength_lt_concat (front : List Char) (c : Char) :
    byteLength front < byteLength (front ++ [c]) := by
  have hpos := c.utf8Size_pos
  rw [byteLength_append, byteLength_cons]
  omega

/-- Behind a character that ends the line there is one line end more. -/
theorem lineEndsUpTo_concat_of_endsLine (h : endsLine c rest) :
    lineEndsUpTo (front ++ c :: rest) (byteLength (front ++ [c])) =
      insert (byteLength (front ++ [c]))
        (lineEndsUpTo (front ++ c :: rest) (byteLength front)) := by
  have hlt := byteLength_lt_concat front c
  ext e
  constructor
  · rintro ⟨hle, he⟩
    -- in between there is only this one
    rcases he.le_or_eq hle with hbefore | ⟨rfl, -⟩
    · exact .inr ⟨hbefore, he⟩
    · exact .inl rfl
  · rintro (rfl | ⟨hle, he⟩)
    · exact ⟨le_refl _, lineEndsAt_concat_iff.mpr h⟩
    · exact ⟨hle.trans hlt.le, he⟩

/-- Behind any other character there are as many as in front of it. -/
theorem lineEndsUpTo_concat_of_not_endsLine (h : endsLine c rest = false) :
    lineEndsUpTo (front ++ c :: rest) (byteLength (front ++ [c])) =
      lineEndsUpTo (front ++ c :: rest) (byteLength front) := by
  have hlt := byteLength_lt_concat front c
  ext e
  constructor
  · rintro ⟨hle, he⟩
    rcases he.le_or_eq hle with hbefore | ⟨-, hends⟩
    · exact ⟨hbefore, he⟩
    · rw [h] at hends
      cases hends
  · rintro ⟨hle, he⟩
    exact ⟨hle.trans hlt.le, he⟩

end Text

/-! ### Lines and columns without steps -/

namespace Position

theorem walk_concat (p : Position) (front : List Char) (c : Char) (rest : List Char) :
    p.walk (front ++ [c]) rest = (p.walk front (c :: rest)).step c rest :=
  p.walk_append front [c] rest

/-- **The line behind a text** is one more than the number of line ends up to there. -/
theorem line_walk_first (front rest : List Char) :
    (first.walk front rest).line =
      1 + (Text.lineEndsUpTo (front ++ rest) (Text.byteLength front)).ncard := by
  -- from the front on, one character more in each step
  induction front using List.reverseRecOn generalizing rest with
  | nil =>
    have hnone : Text.lineEndsUpTo ([] ++ rest) (Text.byteLength []) = ∅ := by
      refine Set.eq_empty_of_forall_notMem ?_
      rintro e ⟨hle, he⟩
      exact Nat.not_lt.mpr hle he.pos
    rw [hnone, Set.ncard_empty]
    rfl
  | append_singleton front c ih =>
    have htext : front ++ [c] ++ rest = front ++ c :: rest := List.append_assoc front [c] rest
    have hlt := Text.byteLength_lt_concat front c
    rw [walk_concat, htext, step]
    by_cases hends : Text.endsLine c rest
    · have hnew : Text.byteLength (front ++ [c]) ∉
          Text.lineEndsUpTo (front ++ c :: rest) (Text.byteLength front) :=
        fun h => Nat.not_le.mpr hlt h.1
      rw [if_pos hends, Text.lineEndsUpTo_concat_of_endsLine hends,
        Set.ncard_insert_of_notMem hnew (Text.finite_lineEndsUpTo _ _), ih (c :: rest),
        Nat.add_assoc]
    · rw [if_neg hends,
        Text.lineEndsUpTo_concat_of_not_endsLine (Bool.not_eq_true _ ▸ hends), ih (c :: rest)]

/-- **The column behind a text** is one more than the UTF-16 length of what follows the last start
of a line up to there. -/
theorem exists_lineStart_walk_first (front rest : List Char) :
    ∃ before left, front = before ++ left ∧
      IsGreatest (Text.lineStartsUpTo (front ++ rest) (Text.byteLength front))
        (Text.byteLength before) ∧
      (first.walk front rest).column = 1 + Text.unitLength left := by
  -- again one character more in each step, so that the line start is the last one seen
  induction front using List.reverseRecOn generalizing rest with
  | nil => exact ⟨[], [], rfl, ⟨⟨le_refl _, .inl rfl⟩, fun s hs => hs.1⟩, rfl⟩
  | append_singleton front c ih =>
    have htext : front ++ [c] ++ rest = front ++ c :: rest := List.append_assoc front [c] rest
    have hlt := Text.byteLength_lt_concat front c
    rw [walk_concat, htext, step]
    by_cases hends : Text.endsLine c rest
    · -- the next line starts right here
      rw [if_pos hends]
      refine ⟨front ++ [c], [], (List.append_nil _).symm, ⟨⟨le_refl _, .inr ?_⟩, ?_⟩, rfl⟩
      · exact Text.lineEndsAt_concat_iff.mpr hends
      · exact fun s hs => hs.1
    · -- the line goes on, and no other starts behind this character
      rw [if_neg hends]
      obtain ⟨before, left, rfl, ⟨hstart, hgreatest⟩, hcolumn⟩ := ih (c :: rest)
      refine ⟨before, left ++ [c], List.append_assoc _ _ _, ⟨⟨?_, hstart.2⟩, ?_⟩, ?_⟩
      · exact hstart.1.trans hlt.le
      · rintro s ⟨hle, hs⟩
        refine hgreatest ⟨?_, hs⟩
        rcases hs with rfl | hs
        · exact Nat.zero_le _
        · rcases hs.le_or_eq hle with hbefore | ⟨-, h⟩
          · exact hbefore
          · exact absurd h hends
      · show (first.walk (before ++ left) (c :: rest)).column + _ = _
        rw [hcolumn, Text.unitLength_append, Nat.add_assoc]
        rfl

/-! ### Later and later places -/

/-- Line and column, in the order in which a text is read. -/
def lineColumn (p : Position) : ℕ ×ₗ ℕ :=
  toLex (p.line, p.column)

/-- **A step goes down or right.** -/
theorem lineColumn_lt_step (p : Position) (c : Char) (rest : List Char) :
    p.lineColumn < (p.step c rest).lineColumn := by
  have hpos := Text.unitSize_pos c
  unfold lineColumn step
  rw [Prod.Lex.toLex_lt_toLex]
  split
  · exact .inl (Nat.lt_succ_self _)
  · exact .inr ⟨rfl, Nat.lt_add_of_pos_right hpos⟩

/-- So does a walk over some characters. -/
theorem lineColumn_lt_walk (p : Position) {front : List Char} (hne : front ≠ [])
    (rest : List Char) : p.lineColumn < (p.walk front rest).lineColumn := by
  induction front generalizing p with
  | nil => exact absurd rfl hne
  | cons c front ih =>
    have hstep := p.lineColumn_lt_step c (front ++ rest)
    cases front with
    | nil => exact hstep
    | cons d front => exact hstep.trans (ih _ (List.cons_ne_nil d front))

/-- An offset is reached at the first boundary that is not in front of it, or at the end. -/
theorem exists_seek_eq_walk (target : Nat) (p : Position) (cs : List Char) :
    ∃ front rest, cs = front ++ rest ∧ seek target p cs = p.walk front rest ∧
      (rest = [] ∨ target ≤ p.offset + Text.byteLength front) ∧
      ∀ init c, front = init ++ [c] → p.offset + Text.byteLength init < target := by
  induction cs generalizing p with
  | nil => exact ⟨[], [], rfl, rfl, .inl rfl, by simp⟩
  | cons c cs ih =>
    rw [seek]
    split
    · next hlt =>
      -- the character is stepped over, and the offset is reached among the others
      obtain ⟨front, rest, rfl, hseek, hreached, hbefore⟩ := ih (p.step c cs)
      rw [offset_step] at hreached hbefore
      refine ⟨c :: front, rest, rfl, hseek, ?_, ?_⟩
      · rwa [Text.byteLength_cons, ← Nat.add_assoc]
      · intro init d heq
        cases init with
        | nil => simpa using hlt
        | cons e init =>
          obtain ⟨rfl, hfront⟩ := List.cons.inj heq
          have hinit := hbefore init d hfront
          rwa [Text.byteLength_cons, ← Nat.add_assoc]
    · next hle => exact ⟨[], c :: cs, rfl, rfl, .inr (Nat.not_lt.mp hle), by simp⟩

end Position

namespace Source

variable (source : Source)

/-- **The line of an offset**, also of one inside a character or past the end. -/
theorem line_position (offset : Nat) :
    (source.position offset).line = 1 + (Text.lineEndsUpTo source.text offset).ncard := by
  obtain ⟨front, rest, htext, hseek, hreached, hbefore⟩ :=
    Position.exists_seek_eq_walk offset .first source.text
  have hfirst : ∀ n, Position.first.offset + n = n := Nat.zero_add
  rw [hfirst] at hreached
  -- from the offset up to where it is reached, no line end ends
  have hends : Text.lineEndsUpTo source.text offset =
      Text.lineEndsUpTo source.text (Text.byteLength front) := by
    ext e
    constructor
    · rintro ⟨hle, he⟩
      refine ⟨?_, he⟩
      rcases hreached with rfl | hreached
      · rw [List.append_nil] at htext
        exact htext ▸ he.boundary.le
      · exact hle.trans hreached
    · rintro ⟨hle, he⟩
      refine ⟨?_, he⟩
      rcases List.eq_nil_or_concat' front with rfl | ⟨init, c, rfl⟩
      · exact hle.trans (Nat.zero_le _)
      · have hinit := hbefore init c rfl
        rw [hfirst] at hinit
        rw [htext, List.append_assoc] at he
        rcases he.le_or_eq hle with hle | ⟨rfl, hc⟩
        · exact hle.trans hinit.le
        · -- a character that ends the line is one byte
          have hsize : c.utf8Size = 1 := by
            cases Text.isLineEnd_of_endsLine hc <;> rfl
          rw [Text.byteLength_append, Text.byteLength_cons, Text.byteLength_nil, hsize]
          exact hinit
  have hline : (source.position offset).line = (Position.first.walk front rest).line := by
    rw [← hseek]
    rfl
  rw [hline, Position.line_walk_first, ← htext, hends]

/-- **The column of an offset** between characters. -/
theorem exists_lineStart {front rest : List Char} (h : source.text = front ++ rest) :
    ∃ before left, front = before ++ left ∧
      IsGreatest (Text.lineStartsUpTo source.text (Text.byteLength front))
        (Text.byteLength before) ∧
      (source.position (Text.byteLength front)).column = 1 + Text.unitLength left := by
  rw [source.position_of_eq_append h, h]
  exact Position.exists_lineStart_walk_first front rest

/-- **Of two offsets the earlier one has the earlier place.** -/
theorem strictMonoOn_position :
    StrictMonoOn (fun offset => (source.position offset).lineColumn)
      {offset | Text.Boundary source.text offset} := by
  rintro a ⟨front, rest, htext, rfl⟩ b ⟨upto, back, htext', rfl⟩ hlt
  -- the later offset is reached by going on from the earlier one
  obtain ⟨mid, rfl, rfl, hne⟩ := Text.exists_mid_of_lt (htext'.symm.trans htext) hlt
  show (source.position _).lineColumn < (source.position _).lineColumn
  rw [source.position_of_eq_append htext, source.position_of_eq_append htext',
    Position.walk_append]
  exact Position.lineColumn_lt_walk _ hne back

theorem merge_span (a b c d : Nat) :
    (source.span a b).merge (source.span c d) = source.span (min a c) (max b d) := by
  -- both positions are those of an offset, so that comparing them is comparing offsets
  have hstart : (if a ≤ c then source.position a else source.position c) =
      source.position (min a c) := by
    rw [min_def]
    split <;> rfl
  have hstop : (if d ≤ b then source.position b else source.position d) =
      source.position (max b d) := by
    rw [max_comm, max_def]
    split <;> rfl
  show (⟨source.path, _, _⟩ : Span) = ⟨source.path, _, _⟩
  rw [← hstart, ← hstop]
  rfl

/-- **Places are in the order of offsets.** Of two offsets between characters of a source, the
earlier one is on an earlier line, or on the same line in an earlier column. The line of an offset
is one more than the number of line ends that end there or before. The column of an offset between
characters is one more than the UTF-16 length of what stands between it and the last start of a line
that is not behind it. Two spans of a source merge, in either order, to the span from the first of
their starts to the last of their ends. -/
theorem positions_embed_offsets :
    StrictMonoOn (fun offset => (source.position offset).lineColumn)
        {offset | Text.Boundary source.text offset} ∧
      (∀ offset,
        (source.position offset).line = 1 + (Text.lineEndsUpTo source.text offset).ncard) ∧
      (∀ front rest, source.text = front ++ rest →
        ∃ before left, front = before ++ left ∧
          IsGreatest (Text.lineStartsUpTo source.text (Text.byteLength front))
            (Text.byteLength before) ∧
          (source.position (Text.byteLength front)).column = 1 + Text.unitLength left) ∧
      ∀ a b c d,
        (source.span a b).merge (source.span c d) = source.span (min a c) (max b d) ∧
          (source.span c d).merge (source.span a b) = source.span (min a c) (max b d) := by
  refine ⟨source.strictMonoOn_position, source.line_position,
    fun front rest h => source.exists_lineStart h, fun a b c d => ⟨source.merge_span a b c d, ?_⟩⟩
  -- the order of the two does not matter for the first start and the last end
  rw [source.merge_span, min_comm, max_comm]

/-- A line end of two characters, and behind it a character of two units. -/
def widened : Source :=
  .ofString "x.pmxc" "a\r\n𝔸b"

/-- Between the two characters no line end has ended, and behind them one has. -/
theorem widened_positions :
    Text.Boundary widened.text 2 ∧ Text.Boundary widened.text 3 ∧
      (widened.position 2).lineColumn < (widened.position 3).lineColumn ∧
      (Text.lineEndsUpTo widened.text 2).ncard = 0 ∧ (Text.lineEndsUpTo widened.text 3).ncard = 1 ∧
      ∃ before left, "a\r\n𝔸".toList = before ++ left ∧ Text.unitLength left = 2 := by
  obtain ⟨hmono, hline, hcolumn, -⟩ := widened.positions_embed_offsets
  have hinside : Text.Boundary widened.text 2 :=
    ⟨"a\r".toList, "\n𝔸b".toList, by decide +kernel, by decide +kernel⟩
  have hbehind : Text.Boundary widened.text 3 :=
    ⟨"a\r\n".toList, "𝔸b".toList, by decide +kernel, by decide +kernel⟩
  have htwo : (widened.position 2).line = 1 := by decide +kernel
  have hthree : (widened.position 3).line = 2 := by decide +kernel
  have hwide : (widened.position (Text.byteLength "a\r\n𝔸".toList)).column = 3 := by decide +kernel
  obtain ⟨before, left, hfront, -, hleft⟩ :=
    hcolumn "a\r\n𝔸".toList "b".toList (by decide +kernel)
  rw [hline] at htwo hthree
  refine ⟨hinside, hbehind, hmono hinside hbehind (by decide), by omega, by omega, before, left,
    hfront, by omega⟩

end Source

end MatchCheck
