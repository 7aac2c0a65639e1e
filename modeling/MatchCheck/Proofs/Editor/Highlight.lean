import MatchCheck.Editor.Highlight
import MatchCheck.Proofs.Token.Place

/-!
# Highlighting line by line

An editor asks for the colours of a document one line at a time, and gets what cutting the whole
document into tokens would give. The reason is that a line end is always a token of its own: a text
that lies within a line is cut up in front of a line end as it is cut up alone
(`Lexeme.scan_append_lineEnd`). Behind the line end the next line begins at the first column, so
that the columns of its tokens are the indices that an editor counts from the front of the line
(`Editor.scoped_place`).
-/

namespace MatchCheck

/-! ### Lexemes in front of a line end -/

namespace Lexeme

variable {l : Lexeme} {ls : List Lexeme}

/-- Lexemes lie within a line exactly if each of them does. -/
theorem withinLine_texts_cons :
    Text.WithinLine (texts (l :: ls)) ↔ Text.WithinLine l.text ∧ Text.WithinLine (texts ls) := by
  rw [texts_cons]
  exact List.forall_mem_append

/-- What lies within a line ends in front of a line break as it ends in front of nothing. -/
theorem endsBefore_lineBreak (hl : Text.WithinLine l.text) {c : Char}
    (hc : Text.isLineBreak c = true) : l.EndsBefore (some c) := by
  have hword : isWordChar c = false := by
    by_contra hword
    rw [Bool.not_eq_false] at hword
    rw [isLineBreak_eq_false_of_isWordChar hword] at hc
    cases hc
  have hblank : isBlank c = false := by
    by_contra hblank
    rw [Bool.not_eq_false] at hblank
    rw [isLineBreak_eq_false_of_isBlank hblank] at hc
    cases hc
  -- for each kind of lexeme, a line break is none of the characters with which it goes on
  unfold EndsBefore
  split
  case h_5 => simpa using hblank
  case h_6 => simpa using hc
  case h_7 =>
    intro htext
    rw [htext] at hl
    exact absurd (hl '\r' List.mem_cons_self) (by decide)
  case h_8 => trivial
  all_goals simpa using hword

/-- Characters to which no rule applies at the end of a text are still such in front of a line
break. -/
theorem strays_lineBreak {cs : List Char} (h : Strays cs none) {c : Char}
    (hc : Text.isLineBreak c = true) : Strays cs (some c) := by
  induction cs with
  | nil => trivial
  | cons d cs ih =>
    refine ⟨?_, ih h.2⟩
    have hd := h.1
    cases cs with
    | cons e cs => exact hd
    | nil =>
      -- a line break completes neither an arrow nor the front of a comment
      simp only [Text.isLineBreak, Bool.or_eq_true, beq_iff_eq] at hc
      simp only [isStray, List.head?_nil, Option.none_or] at hd ⊢
      rcases hc with rfl | rfl <;> simpa using hd

/-- Tiles within a line stay tiles in front of a line break. -/
theorem Tiled.append_newline {xs ys : List Lexeme} (hxs : Tiled xs)
    (hline : Text.WithinLine (texts xs)) {n : Lexeme} {c : Char} {cs : List Char}
    (hn : n.text = c :: cs) (hc : Text.isLineBreak c = true) (hys : Tiled (n :: ys)) :
    Tiled (xs ++ n :: ys) := by
  have hkind : n.kind = .newline := hys.kind_eq_newline hn hc
  -- on the tiles of the line, of which only the last one sees the line break
  induction xs with
  | nil => exact hys
  | cons x xs ih =>
    obtain ⟨hx, hrest⟩ := withinLine_texts_cons.mp hline
    have htail := ih hxs.tail hrest
    rw [List.cons_append]
    cases xs with
    | nil =>
      -- the last tile of the line: behind it the text ended, and now stands the line break
      have hnext : (texts ([] ++ n :: ys)).head? = some c := by
        rw [List.nil_append, texts_cons, hn]
        rfl
      cases hxs with
      | rule hformed _ _ =>
        exact .rule hformed (hnext ▸ endsBefore_lineBreak hx hc) htail
      | strays hne hcs _ _ =>
        refine .strays hne (hnext ▸ strays_lineBreak hcs hc) (fun m hm => ?_) htail
        cases hm
        rw [hkind]
        decide
    | cons z zs =>
      -- any other tile is followed by the same tile as before
      have hnext : (texts (z :: zs ++ n :: ys)).head? = (texts (z :: zs)).head? := by
        rw [List.cons_append, head?_texts hxs.tail.text_ne_nil, head?_texts hxs.tail.text_ne_nil]
      cases hxs with
      | rule hformed hend _ => exact .rule hformed (hnext ▸ hend) htail
      | strays hne hcs hunknown _ => exact .strays hne (hnext ▸ hcs) hunknown htail

/-- **A line end is cut off by itself**, and the line in front of it is cut up as if it stood
alone. -/
theorem scan_append_lineEnd {line ending rest : List Char} (hline : Text.WithinLine line)
    (hending : Text.IsLineEnd ending rest) :
    scan (line ++ (ending ++ rest)) = scan line ++ ⟨.newline, ending⟩ :: scan rest := by
  obtain ⟨hxs, htexts⟩ := tiled_scan line
  obtain ⟨hys, hrest⟩ := tiled_scan rest
  -- lexemes that tile a text are its scan, and tiling is put together from both sides
  rw [scan_eq_iff]
  refine ⟨?_, by rw [texts_append, texts_cons, htexts, hrest]⟩
  rw [← htexts] at hline
  cases hending with
  | lineFeed =>
    exact hxs.append_newline hline rfl rfl (.rule .lineFeed (fun h => by simp at h) hys)
  | returnAndFeed =>
    exact hxs.append_newline hline rfl rfl (.rule .returnAndFeed (fun h => by simp at h) hys)
  | carriageReturn hnext =>
    exact hxs.append_newline hline rfl rfl (.rule .carriageReturn (fun _ => by rwa [hrest]) hys)

/-- The lexemes within a line are no line breaks. -/
theorem kind_ne_newline_of_withinLine {line : List Char} (h : Text.WithinLine line) :
    ∀ l ∈ scan line, l.kind ≠ .newline := by
  obtain ⟨htiled, htexts⟩ := tiled_scan line
  intro l hl hkind
  obtain ⟨xs, ys, hsplit⟩ := List.append_of_mem hl
  rw [hsplit] at htiled htexts
  -- a line break is made of characters that end lines, and the line has none of them
  have hbreak : ∃ c ∈ l.text, Text.isLineBreak c = true := by
    rcases htiled.right.newline_cases hkind with rfl | rfl | ⟨rfl, -⟩
    · exact ⟨'\n', by simp, rfl⟩
    · exact ⟨'\n', by simp, rfl⟩
    · exact ⟨'\r', by simp, rfl⟩
  obtain ⟨c, hc, hbreak⟩ := hbreak
  have hmem : c ∈ line := by
    rw [← htexts, texts_append, texts_cons]
    exact List.mem_append_right _ (List.mem_append_left _ hc)
  rw [h c hmem] at hbreak
  cases hbreak

end Lexeme

/-! ### Tokens and marks -/

namespace Editor

/-- A mark by the number of its line, its column and its scope. -/
def Mark.scoped (number : Nat) (m : Mark) : Nat × Nat × Scope :=
  (number, m.startIndex + 1, m.scope)

/-- A token by the line and the column at which it begins and its scope. -/
def scopedToken (t : Token) : Nat × Nat × Scope :=
  (t.span.start.line, t.span.start.column, .ofKind t.kind)

/-- The marks of lines, the first of which has the given number. -/
def scopedLines (number : Nat) (lines : List (List Char)) : List (Nat × Nat × Scope) :=
  ((lines.map highlight).zipIdx number).flatMap fun (marks, n) => marks.map (Mark.scoped n)

@[simp] theorem scopedLines_nil (number : Nat) : scopedLines number [] = [] := rfl

@[simp] theorem scopedLines_cons (number : Nat) (line : List Char) (lines : List (List Char)) :
    scopedLines number (line :: lines) =
      (highlight line).map (Mark.scoped number) ++ scopedLines (number + 1) lines := rfl

variable {file : String} {p : Position} {ls : List Lexeme}

/-- Within a line, tokens begin at the columns of their marks. -/
theorem scoped_place (h : ∀ l ∈ ls, l.kind ≠ .newline) {index : Nat} (hp : p.column = index + 1) :
    (Token.place file p ls).map scopedToken = (marksFrom index ls).map (Mark.scoped p.line) := by
  induction ls generalizing p index with
  | nil => rfl
  | cons l ls ih =>
    obtain ⟨hl, hls⟩ := List.forall_mem_cons.mp h
    -- a lexeme that is no line break moves the place along the line
    have hadvance : p.advance l =
        ⟨p.offset + Text.byteLength l.text, p.line, p.column + Text.unitLength l.text⟩ := by
      unfold Position.advance
      split
      · contradiction
      · rfl
    have hcolumn : (p.advance l).column = index + Text.unitLength l.text + 1 := by
      rw [hadvance]
      show p.column + Text.unitLength l.text = _
      omega
    rw [Token.place_cons, marksFrom, List.map_cons, List.map_cons, ih hls hcolumn, hadvance,
      scopedToken, Mark.scoped, hp]

/-- Within a line there is no line break to leave out. -/
theorem filter_place_of_ne (h : ∀ l ∈ ls, l.kind ≠ .newline) :
    (Token.place file p ls).filter (·.kind ≠ .newline) = Token.place file p ls := by
  rw [List.filter_eq_self]
  intro t ht
  have hmem : t.lexeme ∈ ls := by
    rw [← Token.map_lexeme_place file p ls]
    exact List.mem_map_of_mem ht
  exact decide_eq_true (h _ hmem)

/-- Behind lexemes other than line breaks the line is the same. -/
theorem line_through_of_ne (h : ∀ l ∈ ls, l.kind ≠ .newline) : (p.through ls).line = p.line := by
  induction ls generalizing p with
  | nil => rfl
  | cons l ls ih =>
    obtain ⟨hl, hls⟩ := List.forall_mem_cons.mp h
    rw [Position.through_cons, ih hls, p.line_advance_of_ne hl]

/-- **Line by line**, the marks are the tokens of the whole text. -/
theorem scopedLines_eq_place {cs : List Char} {lines : List (List Char)}
    (h : Text.HasLines cs lines) (hp : p.column = 1) :
    scopedLines p.line lines =
      ((Token.place file p (Lexeme.scan cs)).filter (·.kind ≠ .newline)).map scopedToken := by
  -- on the lines, with the place at which each of them begins
  induction h generalizing p with
  | @last line hline =>
    have hkinds := Lexeme.kind_ne_newline_of_withinLine hline
    rw [filter_place_of_ne hkinds, scoped_place hkinds hp, scopedLines_cons, scopedLines_nil,
      List.append_nil]
    rfl
  | @more line ending rest lines hline hending _ ih =>
    have hkinds := Lexeme.kind_ne_newline_of_withinLine hline
    -- behind the line end the next line begins at its first column
    have hnext : (p.through (Lexeme.scan line)).advance ⟨.newline, ending⟩ =
        ⟨(p.through (Lexeme.scan line)).offset + Text.byteLength ending, p.line + 1, 1⟩ := by
      show (⟨_, (p.through (Lexeme.scan line)).line + 1, 1⟩ : Position) = _
      rw [line_through_of_ne hkinds]
    have hrest := ih (p := (p.through (Lexeme.scan line)).advance ⟨.newline, ending⟩)
      (by rw [hnext])
    rw [Lexeme.scan_append_lineEnd hline hending, Token.place_append, List.filter_append,
      List.map_append, filter_place_of_ne hkinds, scoped_place hkinds hp, scopedLines_cons]
    rw [hnext] at hrest
    rw [Token.place_cons, List.filter_cons_of_neg (by simp), hnext, hrest]
    rfl

/-! ### The marks of one line -/

/-- Marks stand no further left than where they are counted from. -/
theorem le_startIndex_of_mem_marksFrom {index : Nat} {m : Mark} (h : m ∈ marksFrom index ls) :
    index ≤ m.startIndex := by
  induction ls generalizing index with
  | nil => cases h
  | cons l ls ih =>
    rcases List.mem_cons.mp h with rfl | h
    · exact Nat.le_refl _
    · exact (Nat.le_add_right _ _).trans (ih h)

theorem unitLength_pos {cs : List Char} (h : cs ≠ []) : 0 < Text.unitLength cs := by
  obtain ⟨c, cs, rfl⟩ := List.exists_cons_of_ne_nil h
  rw [Text.unitLength_cons]
  have := Text.unitSize_pos c
  omega

/-- The marks of lexemes that are not empty go right. -/
theorem pairwise_marksFrom (h : ∀ l ∈ ls, l.text ≠ []) (index : Nat) :
    (marksFrom index ls).Pairwise fun m n => m.startIndex < n.startIndex := by
  induction ls generalizing index with
  | nil => exact .nil
  | cons l ls ih =>
    obtain ⟨hl, hls⟩ := List.forall_mem_cons.mp h
    refine List.pairwise_cons.mpr ⟨fun m hm => ?_, ih hls _⟩
    -- no lexeme is empty, so that the next mark starts behind it
    have hpos := unitLength_pos hl
    have hle := le_startIndex_of_mem_marksFrom hm
    show index < m.startIndex
    omega

/-- **Highlighting line by line is highlighting the whole.** The marks of the lines of a source,
numbered from one, are its tokens other than line breaks, by line, column and scope. In each line
the marks go right, and the first of a line that is not empty stands at its front. -/
theorem highlightLines_eq_tokens (source : Source) :
    ((highlightLines source.text).zipIdx 1).flatMap
          (fun (marks, number) => marks.map (Mark.scoped number)) =
        (source.tokens.filter (·.kind ≠ .newline)).map scopedToken ∧
      ∀ line ∈ Text.splitLines source.text,
        (highlight line).Pairwise (fun m n => m.startIndex < n.startIndex) ∧
          (line ≠ [] → (highlight line).head?.map Mark.startIndex = some 0) := by
  have hlines : scopedLines Position.first.line (Text.splitLines source.text) =
      (source.tokens.filter (·.kind ≠ .newline)).map scopedToken :=
    scopedLines_eq_place (Text.hasLines_splitLines source.text) rfl
  refine ⟨hlines, fun line _ => ?_⟩
  obtain ⟨htiled, htexts⟩ := Lexeme.tiled_scan line
  refine ⟨pairwise_marksFrom (fun l hl => htiled.text_ne_nil_of_mem hl) 0, fun hne => ?_⟩
  -- a line that is not empty has a first lexeme
  obtain ⟨l, ls, hscan⟩ : ∃ l ls, Lexeme.scan line = l :: ls := by
    refine List.exists_cons_of_ne_nil fun hnil => hne ?_
    rw [← htexts, hnil, Lexeme.texts_nil]
  rw [highlight, hscan, marksFrom]
  rfl

end Editor

end MatchCheck
