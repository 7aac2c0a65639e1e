import MatchCheck.Text.Line

/-!
# Texts line by line

A text is a line, or a line and its end in front of a further text. `HasLines` says so as a
relation, so that a statement about the lines of a text is proved for a last line and for a line
with more behind it (`hasLines_splitLines`). A line end is a line feed, a carriage return and a line
feed, or a carriage return that no line feed follows.
-/

namespace MatchCheck.Text

/-- A line end, in front of the text behind it. -/
inductive IsLineEnd : List Char → List Char → Prop
  | lineFeed (rest : List Char) : IsLineEnd ['\n'] rest
  | returnAndFeed (rest : List Char) : IsLineEnd ['\r', '\n'] rest
  | carriageReturn {rest : List Char} (h : rest.head? ≠ some '\n') : IsLineEnd ['\r'] rest

/-- No character of the text belongs to a line end. -/
def WithinLine (cs : List Char) : Prop :=
  ∀ c ∈ cs, isLineBreak c = false

instance (cs : List Char) : Decidable (WithinLine cs) :=
  List.decidableBAll (isLineBreak · = false) cs

theorem withinLine_cons {c : Char} {cs : List Char} :
    WithinLine (c :: cs) ↔ isLineBreak c = false ∧ WithinLine cs :=
  List.forall_mem_cons

/-- A character inside a line ends none, whatever follows. -/
theorem endsLine_eq_false_of_isLineBreak {c : Char} (h : isLineBreak c = false)
    (rest : List Char) : endsLine c rest = false := by
  simp only [isLineBreak, Bool.or_eq_false_iff] at h
  simp [endsLine, h]

/-- A text and its lines, without their ends. -/
inductive HasLines : List Char → List (List Char) → Prop
  | last {line : List Char} (hline : WithinLine line) : HasLines line [line]
  | more {line ending rest : List Char} {lines : List (List Char)} (hline : WithinLine line)
      (hending : IsLineEnd ending rest) (hrest : HasLines rest lines) :
      HasLines (line ++ (ending ++ rest)) (line :: lines)

/-- A character inside a line belongs to the first line. -/
theorem HasLines.consFirst {c : Char} {cs : List Char} {lines : List (List Char)}
    (h : HasLines cs lines) (hc : isLineBreak c = false) :
    HasLines (c :: cs) (consFirst c lines) := by
  cases h with
  | last hline => exact .last (withinLine_cons.mpr ⟨hc, hline⟩)
  | more hline hending hrest =>
    exact .more (withinLine_cons.mpr ⟨hc, hline⟩) hending hrest

/-- **Splitting gives the lines of a text.** -/
theorem hasLines_splitLines (cs : List Char) : HasLines cs (splitLines cs) := by
  have hempty : WithinLine [] := List.forall_mem_nil _
  -- at each character the text ends, ends a line by two characters or by one, or goes on
  fun_induction splitLines cs with
  | case1 => exact .last hempty
  | case2 cs ih => exact .more hempty (.returnAndFeed cs) ih
  | case3 c cs hpair hbreak ih =>
    -- a character that ends the line alone
    have hending : IsLineEnd [c] cs := by
      simp only [isLineBreak, Bool.or_eq_true, beq_iff_eq] at hbreak
      rcases hbreak with rfl | rfl
      · exact .lineFeed cs
      · refine .carriageReturn fun hnext => ?_
        obtain ⟨rest, rfl⟩ := List.head?_eq_some_iff.mp hnext
        exact hpair rest rfl rfl
    exact .more hempty hending ih
  | case4 c cs _ hbreak ih => exact ih.consFirst (Bool.eq_false_iff.mpr hbreak)

end MatchCheck.Text
