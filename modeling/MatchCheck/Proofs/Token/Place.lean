import MatchCheck.Proofs.Program.Leaf
import MatchCheck.Proofs.Text.Lines

/-!
# The places of tokens

Tokens are placed by one walk over the lexemes of a text, which moves on by a whole lexeme at a time
(`Position.advance`). A source finds the place of an offset in another way: it steps over the
characters in front of the offset one by one (`Source.position`). The two agree at the ends of
lexemes (`Source.position_through`), because a lexeme that is no line break holds no part of one,
and because a line break counts as one line however it is written.

So the span of a token is `Genuine`: it is the span that the source itself gives for its two
offsets. Spans that are made of genuine spans by `Span.merge` and `Span.shrinkToStart` are genuine
again, and that is all that is ever done with a span.
-/

namespace MatchCheck

/-! ### Places behind lexemes -/

namespace Position

/-- The place behind lexemes that stand at `p`. -/
def through (p : Position) (ls : List Lexeme) : Position :=
  ls.foldl Position.advance p

@[simp] theorem through_nil (p : Position) : p.through [] = p := rfl

@[simp] theorem through_cons (p : Position) (l : Lexeme) (ls : List Lexeme) :
    p.through (l :: ls) = (p.advance l).through ls := rfl

theorem through_append (p : Position) (ls ms : List Lexeme) :
    p.through (ls ++ ms) = (p.through ls).through ms :=
  List.foldl_append

/-- Behind lexemes the offset has grown by their bytes. -/
theorem offset_through (p : Position) (ls : List Lexeme) :
    (p.through ls).offset = p.offset + Text.byteLength (Lexeme.texts ls) := by
  induction ls generalizing p with
  | nil => rfl
  | cons l ls ih =>
    rw [through_cons, ih, p.offset_advance, Lexeme.texts_cons, Text.byteLength_append,
      Nat.add_assoc]

/-! ### Stepping over characters -/

/-- The place behind the characters `front` that stand at `p`, with `rest` behind them. -/
def walk (p : Position) : List Char → List Char → Position
  | [], _ => p
  | c :: front, rest => walk (p.step c (front ++ rest)) front rest

/-- Behind a character the offset has grown by its bytes. -/
theorem offset_step (p : Position) (c : Char) (rest : List Char) :
    (p.step c rest).offset = p.offset + c.utf8Size := by
  unfold step
  split <;> rfl

theorem offset_walk (p : Position) (front rest : List Char) :
    (p.walk front rest).offset = p.offset + Text.byteLength front := by
  induction front generalizing p with
  | nil => rfl
  | cons c front ih => rw [walk, ih, offset_step, Text.byteLength_cons, Nat.add_assoc]

/-- An offset between two characters is reached by stepping over those in front of it. -/
theorem seek_append (p : Position) (front rest : List Char) :
    seek (p.offset + Text.byteLength front) p (front ++ rest) = p.walk front rest := by
  -- on the characters in front of the offset, with the place that is reached so far
  induction front generalizing p with
  | nil =>
    cases rest with
    | nil => rfl
    | cons c rest => simp [seek, walk]
  | cons c front ih =>
    have hpos := c.utf8Size_pos
    have htarget : p.offset + Text.byteLength (c :: front) =
        (p.step c (front ++ rest)).offset + Text.byteLength front := by
      rw [offset_step, Text.byteLength_cons, Nat.add_assoc]
    -- the offset lies behind the first character, so this is stepped over
    have hlt : p.offset < p.offset + Text.byteLength (c :: front) := by
      rw [Text.byteLength_cons]
      omega
    rw [List.cons_append, seek, if_pos hlt, htarget, ih, walk]

/-- A walk over characters in two parts is two walks. The first one sees what follows. -/
theorem walk_append (p : Position) (front mid rest : List Char) :
    p.walk (front ++ mid) rest = (p.walk front (mid ++ rest)).walk mid rest := by
  induction front generalizing p with
  | nil => rfl
  | cons c front ih => rw [List.cons_append, walk, ih, walk, List.append_assoc]

/-- A character that ends no line leads to the right. -/
theorem step_of_isLineBreak_eq_false (p : Position) {c : Char} (h : Text.isLineBreak c = false)
    (rest : List Char) :
    p.step c rest = ⟨p.offset + c.utf8Size, p.line, p.column + Text.unitSize c⟩ := by
  rw [step, Text.endsLine_eq_false_of_isLineBreak h, if_neg (by simp)]

/-- Inside a line a walk goes right. -/
theorem walk_of_withinLine (p : Position) {front : List Char} (h : Text.WithinLine front)
    (rest : List Char) :
    p.walk front rest =
      ⟨p.offset + Text.byteLength front, p.line, p.column + Text.unitLength front⟩ := by
  induction front generalizing p with
  | nil => rfl
  | cons c front ih =>
    obtain ⟨hc, hfront⟩ := Text.withinLine_cons.mp h
    rw [walk, step_of_isLineBreak_eq_false p hc, ih _ hfront]
    simp only [Text.byteLength_cons, Text.unitLength_cons, Nat.add_assoc]

end Position

namespace Lexeme

variable {l : Lexeme} {ls : List Lexeme}

/-- No character of a word ends a line. -/
theorem isLineBreak_eq_false_of_isWordChar {c : Char} (h : isWordChar c = true) :
    Text.isLineBreak c = false := by
  by_contra hbreak
  simp only [Bool.not_eq_false, Text.isLineBreak, Bool.or_eq_true, beq_iff_eq] at hbreak
  rcases hbreak with rfl | rfl <;> exact absurd h (by decide)

theorem isWordChar_of_isWordStart {c : Char} (h : isWordStart c = true) : isWordChar c = true := by
  simp only [isWordStart, isWordChar, Char.isAlphanum, Bool.or_eq_true] at h ⊢
  exact h.imp_left Or.inl

theorem isLineBreak_eq_false_of_isBlank {c : Char} (h : isBlank c = true) :
    Text.isLineBreak c = false := by
  simp only [isBlank, Bool.or_eq_true, beq_iff_eq] at h
  rcases h with (rfl | rfl) | rfl <;> decide

/-- No character that is unknown ends a line, since line ends are known. -/
theorem withinLine_of_strays {cs : List Char} {next : Option Char} (h : Strays cs next) :
    Text.WithinLine cs := by
  induction cs with
  | nil => exact List.forall_mem_nil _
  | cons c cs ih =>
    have hc := h.1
    simp only [isStray, Bool.and_eq_true, Bool.not_eq_true'] at hc
    exact Text.withinLine_cons.mpr ⟨hc.1.1.1.2, ih h.2⟩

/-- No lexeme but a line break holds a part of one. -/
theorem Tiled.withinLine (h : Tiled (l :: ls)) (hkind : l.kind ≠ .newline) :
    Text.WithinLine l.text := by
  -- rule by rule: only line breaks take in a character that ends a line
  cases h with
  | strays _ hcs _ _ => exact withinLine_of_strays hcs
  | rule hl _ _ =>
    cases hl with
    | word hc hcs =>
      refine Text.withinLine_cons.mpr ⟨?_, fun x hx => ?_⟩
      · exact isLineBreak_eq_false_of_isWordChar (isWordChar_of_isWordStart hc)
      · exact isLineBreak_eq_false_of_isWordChar (hcs x hx)
    | blank hblank => exact fun x hx => isLineBreak_eq_false_of_isBlank (hblank x hx)
    | mark hmark =>
      rcases mem_marks_cases hmark with rfl | rfl | rfl | rfl | rfl | rfl <;> decide
    | comment hcs =>
      exact Text.withinLine_cons.mpr ⟨by decide, Text.withinLine_cons.mpr ⟨by decide, hcs⟩⟩
    | carriageReturn => exact absurd rfl hkind
    | lineFeed => exact absurd rfl hkind
    | returnAndFeed => exact absurd rfl hkind

/-- **One lexeme at a time.** Stepping over the characters of a lexeme leads to the place behind
it. -/
theorem Tiled.walk_eq_advance (h : Tiled (l :: ls)) (p : Position) :
    p.walk l.text (texts ls) = p.advance l := by
  -- only line ends lead to another line, and there the two walks have to agree on how many
  by_cases hkind : l.kind = .newline
  · rcases h.newline_cases hkind with rfl | rfl | ⟨rfl, hnext⟩
    · rfl
    · rfl
    · -- a carriage return alone ends the line, since no line feed follows
      have hends : Text.endsLine '\r' (texts ls) = true := by
        simp [Text.endsLine, hnext]
      show p.step '\r' (texts ls) = _
      rw [Position.step, if_pos hends]
      rfl
  · -- the lexeme lies within a line
    rw [p.walk_of_withinLine (h.withinLine hkind), Position.advance]
    split
    · contradiction
    · rfl

/-- Stepping over the characters of lexemes leads to the place behind them. -/
theorem Tiled.walk_eq_through {xs ys : List Lexeme} (h : Tiled (xs ++ ys)) (p : Position) :
    p.walk (texts xs) (texts ys) = p.through xs := by
  induction xs generalizing p with
  | nil => rfl
  | cons x xs ih =>
    have hx : p.walk x.text (texts (xs ++ ys)) = p.advance x := h.walk_eq_advance p
    rw [texts_append] at hx
    rw [texts_cons, p.walk_append, hx, ih h.tail, Position.through_cons]

end Lexeme

/-! ### Genuine spans -/

theorem Span.offset_start_merge (s t : Span) :
    (s.merge t).start.offset = min s.start.offset t.start.offset := by
  unfold merge
  dsimp only
  split <;> omega

theorem Span.offset_stop_merge (s t : Span) :
    (s.merge t).stop.offset = max s.stop.offset t.stop.offset := by
  unfold merge
  dsimp only
  split <;> omega

/-- An offset lies between two characters of a text, or at one of its ends. -/
def Text.Boundary (cs : List Char) (offset : Nat) : Prop :=
  ∃ front rest, cs = front ++ rest ∧ Text.byteLength front = offset

/-- A boundary lies within the text. -/
theorem Text.Boundary.le {cs : List Char} {offset : Nat} (h : Text.Boundary cs offset) :
    offset ≤ Text.byteLength cs := by
  obtain ⟨front, rest, rfl, rfl⟩ := h
  rw [Text.byteLength_append]
  exact Nat.le_add_right _ _

/-- A span of a source is the span that the source gives for its two offsets, and these lie between
characters, in order. -/
structure Span.Genuine (source : Source) (s : Span) : Prop where
  ordered : s.start.offset ≤ s.stop.offset
  inside : s.stop.offset ≤ Text.byteLength source.text
  start_boundary : Text.Boundary source.text s.start.offset
  stop_boundary : Text.Boundary source.text s.stop.offset
  eq_span : s = source.span s.start.offset s.stop.offset

/-- A text is what stands at a span of a source. -/
def Span.Spells (source : Source) (s : Span) (cs : List Char) : Prop :=
  ∃ front rest, source.text = front ++ (cs ++ rest) ∧
    Text.byteLength front = s.start.offset ∧ Text.byteLength (front ++ cs) = s.stop.offset

namespace Span.Genuine

variable {source : Source} {s t : Span}

theorem file_eq (h : s.Genuine source) : s.file = source.path := by
  rw [h.eq_span]
  rfl

theorem start_eq (h : s.Genuine source) : s.start = source.position s.start.offset :=
  congrArg Span.start h.eq_span

theorem stop_eq (h : s.Genuine source) : s.stop = source.position s.stop.offset :=
  congrArg Span.stop h.eq_span

/-- Genuine spans are made of the places of two boundaries. -/
theorem of_positions {start stop : Nat} (hle : start ≤ stop)
    (hstart : Text.Boundary source.text start) (hstop : Text.Boundary source.text stop) :
    (source.span start stop).Genuine source where
  ordered := hle
  inside := hstop.le
  start_boundary := hstart
  stop_boundary := hstop
  eq_span := rfl

/-- **Merging keeps spans genuine.** -/
theorem merge (hs : s.Genuine source) (ht : t.Genuine source) : (s.merge t).Genuine source := by
  -- each end of the merged span is an end of one of the two
  have hstart : (s.merge t).start = s.start ∨ (s.merge t).start = t.start := by
    unfold Span.merge
    exact ite_eq_or_eq _ _ _
  have hstop : (s.merge t).stop = s.stop ∨ (s.merge t).stop = t.stop := by
    unfold Span.merge
    exact ite_eq_or_eq _ _ _
  have hle : (s.merge t).start.offset ≤ (s.merge t).stop.offset := by
    have hs' := hs.ordered
    have ht' := ht.ordered
    rw [offset_start_merge, offset_stop_merge]
    omega
  have hfile : (s.merge t).file = source.path := hs.file_eq
  refine ⟨hle, ?_, ?_, ?_, ?_⟩
  · rcases hstop with h | h <;> rw [h]
    · exact hs.inside
    · exact ht.inside
  · rcases hstart with h | h <;> rw [h]
    · exact hs.start_boundary
    · exact ht.start_boundary
  · rcases hstop with h | h <;> rw [h]
    · exact hs.stop_boundary
    · exact ht.stop_boundary
  · have hfirst : (s.merge t).start = source.position (s.merge t).start.offset := by
      rcases hstart with h | h <;> rw [h]
      · exact hs.start_eq
      · exact ht.start_eq
    have hlast : (s.merge t).stop = source.position (s.merge t).stop.offset := by
      rcases hstop with h | h <;> rw [h]
      · exact hs.stop_eq
      · exact ht.stop_eq
    calc s.merge t = ⟨(s.merge t).file, (s.merge t).start, (s.merge t).stop⟩ := rfl
      _ = ⟨source.path, source.position (s.merge t).start.offset,
            source.position (s.merge t).stop.offset⟩ := by rw [hfile, ← hfirst, ← hlast]

/-- So does going to the front. -/
theorem shrinkToStart (h : s.Genuine source) : s.shrinkToStart.Genuine source where
  ordered := Nat.le_refl _
  inside := h.start_boundary.le
  start_boundary := h.start_boundary
  stop_boundary := h.start_boundary
  eq_span := by
    show (⟨s.file, s.start, s.start⟩ : Span) =
      ⟨source.path, source.position s.start.offset, source.position s.start.offset⟩
    rw [h.file_eq, ← h.start_eq]

end Span.Genuine

/-! ### The tokens of a source -/

namespace Token

/-- A token without its place. -/
def lexeme (t : Token) : Lexeme :=
  ⟨t.kind, t.text⟩

theorem map_lexeme_place (file : String) (p : Position) (ls : List Lexeme) :
    (place file p ls).map lexeme = ls := by
  induction ls generalizing p with
  | nil => rfl
  | cons l ls ih => rw [place_cons, List.map_cons, ih]; rfl

theorem flatMap_text_place (file : String) (p : Position) (ls : List Lexeme) :
    (place file p ls).flatMap Token.text = Lexeme.texts ls := by
  induction ls generalizing p with
  | nil => rfl
  | cons l ls ih => rw [place_cons, List.flatMap_cons, ih, Lexeme.texts_cons]

theorem place_append (file : String) (p : Position) (ls ms : List Lexeme) :
    place file p (ls ++ ms) = place file p ls ++ place file (p.through ls) ms := by
  induction ls generalizing p with
  | nil => rfl
  | cons l ls ih => rw [List.cons_append, place_cons, ih, place_cons]; rfl

/-- Where placed tokens are cut, the lexemes can be cut. -/
theorem exists_of_place_eq_append {file : String} {p : Position} {ls : List Lexeme}
    {before after : List Token} {t : Token} (h : place file p ls = before ++ t :: after) :
    ∃ xs l ys, ls = xs ++ l :: ys ∧
      t = ⟨l.kind, l.text, file, p.through xs, (p.through xs).advance l⟩ ∧
      after = place file ((p.through xs).advance l) ys := by
  induction ls generalizing p before with
  | nil => simp at h
  | cons l ls ih =>
    rw [place_cons] at h
    -- the place moves on over the lexemes that are in front of the cut
    cases before with
    | nil =>
      obtain ⟨rfl, rfl⟩ := List.cons.inj h
      exact ⟨[], l, ls, rfl, rfl, rfl⟩
    | cons u before =>
      obtain ⟨xs, m, ys, rfl, ht, hafter⟩ := ih (List.cons.inj h).2
      exact ⟨l :: xs, m, ys, rfl, ht, hafter⟩

end Token

namespace Source

variable (source : Source)

/-- The place of an offset between two characters is reached by stepping over those in front of
it. -/
theorem position_of_eq_append {front rest : List Char} (h : source.text = front ++ rest) :
    source.position (Text.byteLength front) = Position.first.walk front rest := by
  have hseek := Position.seek_append .first front rest
  have hoffset := Position.offset_walk .first front rest
  have hfirst : Position.first.offset + Text.byteLength front = Text.byteLength front :=
    Nat.zero_add _
  rw [hfirst] at hseek hoffset
  unfold position
  rw [h, hseek, ← hoffset]

/-- **Tokens stand where the source says.** The walk over lexemes is at the place that the source
finds for the same offset. -/
theorem position_through {xs ys : List Lexeme} (h : Lexeme.scan source.text = xs ++ ys) :
    source.position (Text.byteLength (Lexeme.texts xs)) = Position.first.through xs := by
  obtain ⟨htiled, htexts⟩ := Lexeme.tiled_scan source.text
  rw [h] at htiled htexts
  rw [Lexeme.texts_append] at htexts
  rw [source.position_of_eq_append htexts.symm, htiled.walk_eq_through]

/-- Where a lexeme of a source ends is a boundary between characters. -/
theorem boundary_through {xs ys : List Lexeme} (h : Lexeme.scan source.text = xs ++ ys) :
    Text.Boundary source.text (Text.byteLength (Lexeme.texts xs)) := by
  have htexts := (Lexeme.tiled_scan source.text).2
  rw [h, Lexeme.texts_append] at htexts
  exact ⟨_, _, htexts.symm, rfl⟩

/-- The stretch that lexemes of a source make up has a genuine span. -/
theorem genuine_through {xs ls ys : List Lexeme}
    (h : Lexeme.scan source.text = xs ++ (ls ++ ys)) :
    (⟨source.path, Position.first.through xs, Position.first.through (xs ++ ls)⟩ :
      Span).Genuine source := by
  have hstart := source.position_through h
  -- a lexeme begins and ends where the text of lexemes ends
  have hstop : source.position (Text.byteLength (Lexeme.texts (xs ++ ls))) =
      Position.first.through (xs ++ ls) := by
    rw [← List.append_assoc] at h
    exact source.position_through h
  rw [← hstart, ← hstop]
  refine Span.Genuine.of_positions ?_ (source.boundary_through h) ?_
  · rw [Lexeme.texts_append, Text.byteLength_append]
    exact Nat.le_add_right _ _
  · rw [← List.append_assoc] at h
    exact source.boundary_through h

variable {source} in
/-- The span of a token is genuine, and the text of the token stands there. -/
theorem genuine_of_mem_tokens {t : Token} (h : t ∈ source.tokens) :
    t.span.Genuine source ∧ t.span.Spells source t.text := by
  obtain ⟨before, after, hsplit⟩ := List.append_of_mem h
  -- a token begins behind the lexemes in front of its own and ends with this one
  obtain ⟨xs, l, ys, hscan, rfl, -⟩ := Token.exists_of_place_eq_append hsplit
  have hspan : (⟨source.path, .through .first xs, .through .first (xs ++ [l])⟩ : Span).Genuine
      source := source.genuine_through hscan
  rw [Position.through_append] at hspan
  refine ⟨hspan, Lexeme.texts xs, Lexeme.texts ys, ?_, ?_, ?_⟩
  · rw [← (Lexeme.tiled_scan source.text).2, hscan, Lexeme.texts_append, Lexeme.texts_cons]
  · show _ = (Position.first.through xs).offset
    rw [Position.offset_through]
    exact (Nat.zero_add _).symm
  · show _ = ((Position.first.through xs).advance l).offset
    rw [Position.offset_advance, Position.offset_through, Text.byteLength_append]
    exact congrArg (· + _) (Nat.zero_add _).symm

/-- The end of a source is a genuine span. -/
theorem genuine_endSpan : source.endSpan.Genuine source := by
  have hscan : Lexeme.scan source.text = Lexeme.scan source.text ++ ([] ++ []) := by simp
  have h := source.genuine_through hscan
  rwa [List.append_nil] at h

end Source

end MatchCheck
