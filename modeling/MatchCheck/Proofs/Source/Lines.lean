import MatchCheck.Proofs.Editor.Highlight

/-!
# Lines, counted three ways

The lines of a source are found in three ways. `Text.splitLines` cuts the text at its line ends,
`Text.lineStarts` lists the offsets behind line ends, from which `Text.line?` reads one line back,
and the tokens of a source hold a line break for every line end. Each way decides for itself what a
carriage return is: a line end of its own, or the first half of one.

They agree because each of them passes over a line and its end in one go, whatever is behind
(`lineStartsFrom_append_lineEnd`, `Lexeme.scan_append_lineEnd`). Then all three are followed along
the lines of the text by one induction each. A line is read back from its start up to the last
character of its end, so the first half of a line end may be left over, and it is the only carriage
return that can be (`HasLines.lineFrom_eq`).
-/

namespace MatchCheck

namespace Text

/-! ### The starts of lines -/

variable {line ending rest : List Char}

/-- No line begins inside a line. -/
theorem lineStartsFrom_append (h : WithinLine line) (offset : Nat) (rest : List Char) :
    lineStartsFrom offset (line ++ rest) = lineStartsFrom (offset + byteLength line) rest := by
  induction line generalizing offset with
  | nil => rfl
  | cons c line ih =>
    obtain ⟨hc, hline⟩ := withinLine_cons.mp h
    rw [List.cons_append, lineStartsFrom, endsLine_eq_false_of_isLineBreak hc, if_neg (by simp),
      ih hline, byteLength_cons, Nat.add_assoc]

/-- One line begins behind a line end, however it is written. -/
theorem lineStartsFrom_lineEnd (h : IsLineEnd ending rest) (offset : Nat) :
    lineStartsFrom offset (ending ++ rest) =
      (offset + byteLength ending) :: lineStartsFrom (offset + byteLength ending) rest := by
  cases h with
  | lineFeed => simp [lineStartsFrom, endsLine]
  | returnAndFeed => simp [lineStartsFrom, endsLine, Nat.add_assoc]
  | carriageReturn h => simp [lineStartsFrom, endsLine, h]

/-- Passing over a line with its end, one line start is found. -/
theorem lineStartsFrom_append_lineEnd (hline : WithinLine line) (hending : IsLineEnd ending rest)
    (offset : Nat) :
    lineStartsFrom offset (line ++ (ending ++ rest)) =
      (offset + byteLength (line ++ ending)) ::
        lineStartsFrom (offset + byteLength (line ++ ending)) rest := by
  rw [lineStartsFrom_append hline, lineStartsFrom_lineEnd hending, byteLength_append,
    Nat.add_assoc]

/-- Lines begin behind the offset that is started from. -/
theorem le_of_mem_lineStartsFrom {offset start : Nat} {cs : List Char}
    (h : start ∈ lineStartsFrom offset cs) : offset ≤ start := by
  induction cs generalizing offset with
  | nil => cases h
  | cons c cs ih =>
    rw [lineStartsFrom] at h
    split at h
    · rcases List.mem_cons.mp h with rfl | h
      · exact Nat.le_add_right _ _
      · exact (Nat.le_add_right _ _).trans (ih h)
    · exact (Nat.le_add_right _ _).trans (ih h)

/-- A text has one line more than line starts behind its front. -/
theorem HasLines.length_eq {cs : List Char} {lines : List (List Char)} (h : HasLines cs lines)
    (offset : Nat) : lines.length = (lineStartsFrom offset cs).length + 1 := by
  -- line by line, with the offset where each begins
  induction h generalizing offset with
  | @last line hline =>
    have hstarts := lineStartsFrom_append hline offset []
    rw [List.append_nil] at hstarts
    rw [hstarts]
    rfl
  | @more line ending rest lines hline hending _ ih =>
    rw [lineStartsFrom_append_lineEnd hline hending, List.length_cons, List.length_cons,
      ih (offset + byteLength (line ++ ending))]

/-! ### What stands between two offsets -/

section Between

variable {start stop offset : Nat}

/-- What stands between two offsets is collected from both parts of a text. -/
theorem between_append (xs ys : List Char) :
    between start stop offset (xs ++ ys) =
      between start stop offset xs ++ between start stop (offset + byteLength xs) ys := by
  induction xs generalizing offset with
  | nil => rfl
  | cons c xs ih =>
    rw [List.cons_append, between, between, ih, byteLength_cons, Nat.add_assoc]
    split <;> rfl

theorem between_eq_self {cs : List Char} (hstart : start ≤ offset)
    (hstop : offset + byteLength cs ≤ stop) : between start stop offset cs = cs := by
  induction cs generalizing offset with
  | nil => rfl
  | cons c cs ih =>
    have hpos := c.utf8Size_pos
    rw [byteLength_cons] at hstop
    rw [between, ih (by omega) (by omega), if_pos (by simp; omega)]

theorem between_eq_nil_of_le_start {cs : List Char} (h : offset + byteLength cs ≤ start) :
    between start stop offset cs = [] := by
  induction cs generalizing offset with
  | nil => rfl
  | cons c cs ih =>
    have hpos := c.utf8Size_pos
    rw [byteLength_cons] at h
    rw [between, ih (by omega), if_neg (by simp; omega)]

theorem between_eq_nil_of_stop_le (h : stop ≤ offset) (cs : List Char) :
    between start stop offset cs = [] := by
  induction cs generalizing offset with
  | nil => rfl
  | cons c cs ih => rw [between, ih (by omega), if_neg (by simp; omega)]

end Between

/-! ### Reading a line back -/

/-- Of a line and carriage returns behind it the line is left. -/
theorem trimReturns_append_replicate (h : WithinLine line) (n : Nat) :
    trimReturns (line ++ List.replicate n '\r') = line := by
  -- the line itself does not end in a carriage return, so trimming stops there
  have hkeep : line.reverse.dropWhile (· == '\r') = line.reverse := by
    cases hrev : line.reverse with
    | nil => rfl
    | cons c cs =>
      have hmem : c ∈ line := List.mem_reverse.mp (hrev ▸ List.mem_cons_self)
      have hc : (c == '\r') = false := by
        have hbreak := h c hmem
        simp only [isLineBreak, Bool.or_eq_false_iff] at hbreak
        exact hbreak.2
      rw [List.dropWhile_cons_of_neg (by simp [hc])]
  rw [trimReturns, List.reverse_append, List.reverse_replicate]
  induction n with
  | zero => rw [List.replicate_zero, List.nil_append, hkeep, List.reverse_reverse]
  | succ n ih => rwa [List.replicate_succ, List.cons_append, List.dropWhile_cons_of_pos (by simp)]

/-- Of a line end only the first half can stand in front of its last character. -/
theorem exists_between_lineEnd (h : IsLineEnd ending rest) {start offset : Nat}
    (hstart : start ≤ offset) :
    ∃ n, between start (offset + byteLength ending - 1) offset ending = List.replicate n '\r' := by
  -- in front of the last byte of a line end there is its other character, if it has two
  have hfeed : '\n'.utf8Size = 1 := rfl
  have hreturn : '\r'.utf8Size = 1 := rfl
  cases h with
  | lineFeed => exact ⟨0, by simp [between, hfeed]⟩
  | returnAndFeed => exact ⟨1, by simp [between, hfeed, hreturn, hstart]⟩
  | carriageReturn => exact ⟨0, by simp [between, hreturn]⟩

/-- The line with the given index in a text that stands at an offset, read back by line starts. -/
def lineFrom (offset : Nat) (cs : List Char) (index : Nat) : Option (List Char) :=
  let starts := offset :: lineStartsFrom offset cs
  starts[index]?.map fun start =>
    trimReturns (between start ((starts[index + 1]?.map (· - 1)).getD (offset + byteLength cs))
      offset cs)

/-- Lines are numbered from one. -/
theorem line?_succ (cs : List Char) (index : Nat) : line? cs (index + 1) = lineFrom 0 cs index := by
  simp only [line?, lineFrom, lineStarts, Nat.zero_add]

/-- Behind a line and its end, lines are read back as if the text began there. -/
theorem lineFrom_append_lineEnd (hline : WithinLine line) (hending : IsLineEnd ending rest)
    (offset index : Nat) :
    lineFrom offset (line ++ (ending ++ rest)) (index + 1) =
      lineFrom (offset + byteLength (line ++ ending)) rest index := by
  unfold lineFrom
  rw [lineStartsFrom_append_lineEnd hline hending]
  simp only [List.getElem?_cons_succ]
  rw [← List.append_assoc, byteLength_append (line ++ ending), ← Nat.add_assoc]
  -- the line that is asked for begins behind the first one, of which nothing is read back
  refine Option.map_congr fun start hstart => ?_
  have hle : offset + byteLength (line ++ ending) ≤ start := by
    rcases List.mem_cons.mp (List.mem_of_getElem? hstart) with rfl | hmem
    · exact Nat.le_refl _
    · exact le_of_mem_lineStartsFrom hmem
  rw [between_append, between_eq_nil_of_le_start hle, List.nil_append]

/-- **Lines are read back as they are split off.** -/
theorem HasLines.lineFrom_eq {cs : List Char} {lines : List (List Char)} (h : HasLines cs lines)
    (offset index : Nat) : lineFrom offset cs index = lines[index]? := by
  -- along the lines of the text, with the offset where each begins
  induction h generalizing offset index with
  | @last line hline =>
    have hstarts := lineStartsFrom_append hline offset []
    rw [List.append_nil] at hstarts
    unfold lineFrom
    rw [hstarts]
    cases index with
    | zero =>
      have htrim := trimReturns_append_replicate hline 0
      rw [List.replicate_zero, List.append_nil] at htrim
      simp [lineStartsFrom, between_eq_self, htrim]
    | succ index => simp [lineStartsFrom]
  | @more line ending rest lines hline hending _ ih =>
    cases index with
    | succ index => rw [lineFrom_append_lineEnd hline hending, ih, List.getElem?_cons_succ]
    | zero =>
      -- from the start of the line up to the last character of its end
      obtain ⟨n, hn⟩ := exists_between_lineEnd hending (Nat.le_add_right offset (byteLength line))
      have hpos : 0 < byteLength ending := by
        cases hending <;> decide
      have hbetween : between offset (offset + byteLength line + byteLength ending - 1) offset
          (line ++ (ending ++ rest)) = line ++ List.replicate n '\r' := by
        rw [between_append, between_append, hn, between_eq_self (Nat.le_refl _) (by omega),
          between_eq_nil_of_stop_le (by omega), List.append_nil]
      unfold lineFrom
      rw [lineStartsFrom_append_lineEnd hline hending]
      simp only [List.getElem?_cons_zero, List.getElem?_cons_succ, Option.map_some,
        Option.getD_some, byteLength_append line, ← Nat.add_assoc, hbetween,
        trimReturns_append_replicate hline]

end Text

/-! ### Line breaks among tokens -/

/-- The line breaks among the lexemes of a text are its line ends. -/
theorem Lexeme.length_lines_eq {cs : List Char} {lines : List (List Char)}
    (h : Text.HasLines cs lines) :
    lines.length = 1 + (scan cs).countP (·.kind = .newline) := by
  -- inside a line there is no line break
  have hnone : ∀ {line : List Char}, Text.WithinLine line →
      (scan line).countP (·.kind = .newline) = 0 := by
    intro line hline
    rw [List.countP_eq_zero]
    intro l hl
    simpa using kind_ne_newline_of_withinLine hline l hl
  induction h with
  | last hline => rw [hnone hline]; rfl
  | more hline hending _ ih =>
    rw [scan_append_lineEnd hline hending, List.countP_append, hnone hline,
      List.countP_cons_of_pos (by simp), List.length_cons, ih]
    omega

/-- Every line break moves the tokens behind it down by one line. -/
theorem Token.line_start_of_place_eq_append {file : String} {p : Position} {ls : List Lexeme}
    {before after : List Token} {t : Token} (h : place file p ls = before ++ t :: after) :
    t.span.start.line = p.line + before.countP (·.kind = .newline) := by
  induction ls generalizing p before with
  | nil => simp at h
  | cons l ls ih =>
    rw [place_cons] at h
    cases before with
    | nil =>
      obtain ⟨rfl, -⟩ := List.cons.inj h
      rfl
    | cons u before =>
      obtain ⟨rfl, hrest⟩ := List.cons.inj h
      rw [ih hrest]
      -- the first token counts if it is a line break, and just then the others are a line further
      -- down
      by_cases hl : l.kind = .newline
      · rw [List.countP_cons_of_pos (by simpa using hl), p.line_advance_of_newline hl]
        omega
      · rw [List.countP_cons_of_neg (by simpa using hl), p.line_advance_of_ne hl]

/-- **Lines are counted alike three ways.** The number of lines of a source is the number of lines
that its text splits into, and one more than the number of its line breaks. Line `n` is the `n`th of
the lines that the text splits into, and there are no others. Every token stands on the line whose
number is one more than the number of line breaks in front of it. -/
theorem Source.lines_agree (source : Source) :
    source.lineCount = (Text.splitLines source.text).length ∧
      source.lineCount = 1 + source.tokens.countP (·.kind = .newline) ∧
      (∀ n, source.line? n =
        if 1 ≤ n ∧ n ≤ source.lineCount then (Text.splitLines source.text)[n - 1]? else none) ∧
      ∀ before t after, source.tokens = before ++ t :: after →
        t.span.start.line = 1 + before.countP (·.kind = .newline) := by
  have hlines := Text.hasLines_splitLines source.text
  have hcount : source.lineCount = (Text.splitLines source.text).length := by
    rw [hlines.length_eq 0]
    rfl
  have htokens : source.tokens.countP (·.kind = .newline) =
      (Lexeme.scan source.text).countP (·.kind = .newline) := by
    rw [tokens, ← Token.map_lexeme_place source.path .first (Lexeme.scan source.text),
      List.countP_map, Token.map_lexeme_place]
    rfl
  -- splitting is what the other two ways of counting are compared with
  refine ⟨hcount, ?_, fun n => ?_, fun before t after h => Token.line_start_of_place_eq_append h⟩
  · rw [hcount, htokens, Lexeme.length_lines_eq hlines]
  · cases n with
    | zero => rfl
    | succ index =>
      rw [line?, Text.line?_succ, hlines.lineFrom_eq, Nat.add_sub_cancel, hcount]
      split
      · rfl
      · next h => exact List.getElem?_eq_none (by omega)

end MatchCheck
