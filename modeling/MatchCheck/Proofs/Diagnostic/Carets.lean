import MatchCheck.Diagnostic.Text
import MatchCheck.Proofs.Fix.Made
import MatchCheck.Proofs.Program.Blame

/-!
# Carets under what is reported

A finding is shown with the line on which its span begins and with carets under that line. The line
is found by its number among the lines that the text splits into, while the number was counted by
stepping over characters, and a column counts UTF-16 units where the carets stand under characters.

What is shown is nevertheless the line in which the span begins, and in front of the carets there is
one character for each of the line in front of the span (`Source.carets_under_line`). This rests on
one fact about the places of findings: they are never between the two halves of a line end
(`Source.clean_of_mem_spans`), since tokens begin and end nowhere else than lexemes do.

The number of carets is the number of characters that the span covers of the line only if the span
goes on behind the line or if all of them are one unit wide. A wider character gets two carets:
`wide_char_two_carets`.
-/

namespace MatchCheck

/-! ### Cuts that keep line ends whole -/

namespace Text

/-- A cut of a text that does not divide a line end. -/
def CleanCut (front rest : List Char) : Prop :=
  front.getLast? = some '\r' → rest.head? ≠ some '\n'

/-- An offset lies between two characters of a text and not inside a line end. -/
def CleanBoundary (cs : List Char) (offset : Nat) : Prop :=
  ∃ front rest, cs = front ++ rest ∧ byteLength front = offset ∧ CleanCut front rest

/-- Of two cuts of a text, something stands between the one and the other that comes later. -/
theorem exists_mid_of_lt {front back xs ys : List Char} (h : front ++ back = xs ++ ys)
    (hlt : byteLength xs < byteLength front) :
    ∃ mid, front = xs ++ mid ∧ ys = mid ++ back ∧ mid ≠ [] := by
  obtain ⟨mid, rfl, hys⟩ := exists_mid h hlt.le
  refine ⟨mid, rfl, hys, ?_⟩
  rintro rfl
  rw [List.append_nil] at hlt
  exact Nat.lt_irrefl _ hlt

theorem CleanCut.right {front mid rest : List Char} (h : CleanCut (front ++ mid) rest) :
    CleanCut mid rest := by
  intro hlast
  apply h
  rw [List.getLast?_append, hlast]
  rfl

/-- A clean cut behind the front of a line end is behind all of it. -/
theorem IsLineEnd.exists_of_cleanCut {ending rest front behind : List Char}
    (h : IsLineEnd ending rest) (heq : ending ++ rest = front ++ behind) (hne : front ≠ [])
    (hclean : CleanCut front behind) : ∃ more, front = ending ++ more ∧ rest = more ++ behind := by
  obtain ⟨c, more, rfl⟩ := List.exists_cons_of_ne_nil hne
  cases h with
  | lineFeed =>
    obtain ⟨rfl, rfl⟩ := List.cons.inj heq
    exact ⟨more, rfl, rfl⟩
  | carriageReturn =>
    obtain ⟨rfl, rfl⟩ := List.cons.inj heq
    exact ⟨more, rfl, rfl⟩
  | returnAndFeed =>
    obtain ⟨rfl, hbehind⟩ := List.cons.inj heq
    cases more with
    | nil =>
      -- the cut would be between the two halves
      have hnext : behind.head? = some '\n' := congrArg List.head? hbehind.symm
      exact absurd hnext (hclean rfl)
    | cons d more =>
      obtain ⟨rfl, rfl⟩ := List.cons.inj hbehind
      exact ⟨more, rfl, rfl⟩

/-- A line of a text, with what stands in front of it and behind it. -/
structure IsLine (text before line after : List Char) : Prop where
  text_eq : text = before ++ (line ++ after)
  within : WithinLine line
  opens : before = [] ∨
    ∃ front ending, before = front ++ ending ∧ IsLineEnd ending (line ++ after)
  closes : after = [] ∨ ∃ ending rest, after = ending ++ rest ∧ IsLineEnd ending rest

/-- A line stays one when a line and its end are put in front of the text. -/
theorem IsLine.behind {text before line after first ending : List Char}
    (h : IsLine text before line after) (hending : IsLineEnd ending text) :
    IsLine (first ++ (ending ++ text)) (first ++ (ending ++ before)) line after where
  text_eq := by rw [h.text_eq, List.append_assoc, List.append_assoc]
  within := h.within
  opens := by
    right
    -- the line may be the first one of the text, which now stands behind a line end
    rcases h.opens with rfl | ⟨front, ending', rfl, hending'⟩
    · rw [h.text_eq] at hending
      exact ⟨first, ending, by rw [List.append_nil], hending⟩
    · exact ⟨first ++ (ending ++ front), ending', by simp only [List.append_assoc], hending'⟩
  closes := h.closes

theorem length_le_unitLength (cs : List Char) : cs.length ≤ unitLength cs := by
  induction cs with
  | nil => exact Nat.le_refl 0
  | cons c cs ih =>
    have hpos := unitSize_pos c
    rw [unitLength_cons, List.length_cons]
    omega

/-- A text has as many units as characters only if each character is one unit. -/
theorem unitLength_eq_length_iff {cs : List Char} :
    unitLength cs = cs.length ↔ ∀ c ∈ cs, unitSize c = 1 := by
  induction cs with
  | nil => simp
  | cons c cs ih =>
    have hpos := unitSize_pos c
    have hle := length_le_unitLength cs
    rw [unitLength_cons, List.length_cons, List.forall_mem_cons, ← ih]
    omega

end Text

/-! ### Walks over lines -/

namespace Position

/-- A line end leads to the front of the next line. -/
theorem walk_lineEnd (p : Position) {ending rest : List Char} (h : Text.IsLineEnd ending rest) :
    (p.walk ending rest).line = p.line + 1 ∧ (p.walk ending rest).column = 1 := by
  cases h with
  | lineFeed => exact ⟨rfl, rfl⟩
  | returnAndFeed => exact ⟨rfl, rfl⟩
  | carriageReturn h =>
    have hends : Text.endsLine '\r' ([] ++ rest) = true := by simp [Text.endsLine, h]
    rw [walk, walk, step, if_pos hends]
    exact ⟨rfl, rfl⟩

theorem line_le_walk (p : Position) (front rest : List Char) :
    p.line ≤ (p.walk front rest).line := by
  induction front generalizing p with
  | nil => exact Nat.le_refl _
  | cons c front ih =>
    refine Nat.le_trans ?_ (ih _)
    -- a step goes down one line, or not at all
    unfold step
    split
    · exact Nat.le_succ _
    · exact Nat.le_refl _

end Position

/-- **Clean cuts and lines.** A clean cut of a text lies in one of its lines. Stepping over the text
in front of it leads to the number of this line and to the column behind its left part. -/
theorem Text.HasLines.exists_line {cs : List Char} {lines : List (List Char)}
    (h : HasLines cs lines) {front rest : List Char} (hcs : cs = front ++ rest)
    (hclean : CleanCut front rest) {p : Position} (hp : p.column = 1) :
    ∃ before left right after, front = before ++ left ∧ rest = right ++ after ∧
      IsLine cs before (left ++ right) after ∧
      ∃ k, lines[k]? = some (left ++ right) ∧ (p.walk front rest).line = p.line + k ∧
        (p.walk front rest).column = 1 + unitLength left := by
  induction h generalizing front p with
  | @last line hline =>
    subst hcs
    have hfront : WithinLine front := (List.forall_mem_append.mp hline).1
    rw [p.walk_of_withinLine hfront, hp]
    refine ⟨[], front, rest, [], rfl, (List.append_nil rest).symm, ?_, 0, rfl, rfl, rfl⟩
    exact ⟨by simp, hline, .inl rfl, .inl rfl⟩
  | @more line ending below lines hline hending hbelow ih =>
    rcases Nat.lt_or_ge (byteLength line) (byteLength front) with hlt | hle
    · -- the cut is behind the line, hence behind its end
      obtain ⟨more, rfl, hmore, hne⟩ := Text.exists_mid_of_lt hcs.symm hlt
      obtain ⟨front', rfl, hbelow'⟩ := hending.exists_of_cleanCut hmore hne hclean.right
      -- the walk goes on from the front of the next line
      let q := (p.walk line (ending ++ below)).walk ending below
      have hq : q.line = p.line + 1 ∧ q.column = 1 := by
        have hnext := (p.walk line (ending ++ below)).walk_lineEnd hending
        rwa [show (p.walk line (ending ++ below)).line = p.line by rw [p.walk_of_withinLine hline]]
          at hnext
      have hwalk : p.walk (line ++ (ending ++ front')) rest = q.walk front' rest := by
        rw [p.walk_append, Position.walk_append, List.append_assoc, ← hbelow']
      obtain ⟨before, left, right, after, rfl, hrest, hisLine, k, hk, hnumber, hcolumn⟩ :=
        ih hbelow' hclean.right.right hq.2
      refine ⟨line ++ (ending ++ before), left, right, after, by simp only [List.append_assoc],
        hrest, hisLine.behind hending, k + 1, hk, ?_, ?_⟩
      · rw [hwalk, hnumber, hq.1]
        omega
      · rw [hwalk, hcolumn]
    · -- the cut is in this line
      obtain ⟨right, rfl, rfl⟩ := Text.exists_mid hcs hle
      have hfront : WithinLine front := (List.forall_mem_append.mp hline).1
      rw [p.walk_of_withinLine hfront, hp]
      refine ⟨[], front, right, ending ++ below, rfl, rfl, ?_, 0, rfl, rfl, rfl⟩
      exact ⟨rfl, hline, .inl rfl, .inr ⟨ending, below, rfl, hending⟩⟩

/-- From a place in a line, a clean cut that is no longer in this line is on a later one. -/
theorem Text.IsLine.line_lt_walk {text before line after : List Char}
    (h : IsLine text before line after) {more rest : List Char} (hafter : after = more ++ rest)
    (hne : more ≠ []) (hclean : CleanCut more rest) (p : Position) :
    p.line < (p.walk more rest).line := by
  rcases h.closes with rfl | ⟨ending, below, hending, hisEnd⟩
  · exact absurd (List.append_eq_nil_iff.mp hafter.symm).1 hne
  · -- a cut behind the line is behind its whole end, which is passed
    obtain ⟨more', rfl, rfl⟩ := hisEnd.exists_of_cleanCut (hending.symm.trans hafter) hne hclean
    have hnext := (p.walk_lineEnd hisEnd).1
    have hle := (p.walk ending (more' ++ rest)).line_le_walk more' rest
    rw [p.walk_append]
    omega

/-! ### Places of findings -/

/-- A lexeme does not end between the halves of a line end. -/
theorem Lexeme.Tiled.cleanCut {l : Lexeme} {ls : List Lexeme} (h : Tiled (l :: ls)) :
    Text.CleanCut l.text (texts ls) := by
  intro hlast
  by_cases hkind : l.kind = .newline
  · rcases h.newline_cases hkind with rfl | rfl | ⟨-, hnext⟩
    · exact absurd hlast (by decide)
    · exact absurd hlast (by decide)
    · exact hnext
  · -- a carriage return is part of no other lexeme
    have hreturn := h.withinLine hkind '\r' (List.mem_of_getLast? hlast)
    exact absurd hreturn (by decide)

theorem Lexeme.Tiled.cleanCut_texts {xs ys : List Lexeme} (h : Tiled (xs ++ ys)) :
    Text.CleanCut (texts xs) (texts ys) := by
  induction xs with
  | nil => exact nofun
  | cons x xs ih =>
    cases xs with
    | nil =>
      have hx : Tiled (x :: ys) := h
      simpa using hx.cleanCut
    | cons y xs =>
      have htail : Tiled (y :: (xs ++ ys)) := h.tail
      -- no lexeme is empty, so the last character is one of the later lexemes
      have hne : texts (y :: xs) ≠ [] := by
        rw [texts_cons]
        exact List.append_ne_nil_of_left_ne_nil htail.text_ne_nil _
      obtain ⟨c, hc⟩ := Option.ne_none_iff_exists'.mp (mt List.getLast?_eq_none_iff.mp hne)
      intro hlast
      refine ih htail ?_
      rw [texts_cons, List.getLast?_append, hc] at hlast
      rwa [hc]

/-- A span that a source gives and that divides no line end. -/
structure Span.Clean (source : Source) (s : Span) : Prop where
  genuine : s.Genuine source
  start_clean : Text.CleanBoundary source.text s.start.offset
  stop_clean : Text.CleanBoundary source.text s.stop.offset

namespace Span.Clean

variable {source : Source} {s t : Span}

theorem merge (hs : s.Clean source) (ht : t.Clean source) : (s.merge t).Clean source where
  genuine := hs.genuine.merge ht.genuine
  start_clean := by
    unfold Span.merge
    dsimp only
    split
    · exact hs.start_clean
    · exact ht.start_clean
  stop_clean := by
    unfold Span.merge
    dsimp only
    split
    · exact hs.stop_clean
    · exact ht.stop_clean

theorem shrinkToStart (h : s.Clean source) : s.shrinkToStart.Clean source :=
  ⟨h.genuine.shrinkToStart, h.start_clean, h.start_clean⟩

end Span.Clean

namespace Source

variable (source : Source)

theorem cleanBoundary_through {xs ys : List Lexeme} (h : Lexeme.scan source.text = xs ++ ys) :
    Text.CleanBoundary source.text (Position.first.through xs).offset := by
  obtain ⟨htiled, htexts⟩ := Lexeme.tiled_scan source.text
  rw [h] at htiled htexts
  rw [Lexeme.texts_append] at htexts
  refine ⟨_, _, htexts.symm, ?_, htiled.cleanCut_texts⟩
  rw [Position.offset_through]
  exact (Nat.zero_add _).symm

/-- The stretch that lexemes of a source make up has a clean span. -/
theorem clean_through {xs ls ys : List Lexeme} (h : Lexeme.scan source.text = xs ++ (ls ++ ys)) :
    (⟨source.path, Position.first.through xs, Position.first.through (xs ++ ls)⟩ :
      Span).Clean source := by
  refine ⟨source.genuine_through h, source.cleanBoundary_through h, ?_⟩
  rw [← List.append_assoc] at h
  exact source.cleanBoundary_through h

/-- **Findings divide no line end.** -/
theorem clean_of_mem_spans (options : CheckOptions) :
    ∀ d ∈ source.check options, ∀ s ∈ d.spans, s.Clean source := by
  have htokens : ∀ t ∈ source.tokens, t.span.Clean source := by
    intro t ht
    obtain ⟨before, after, hsplit⟩ := List.append_of_mem ht
    obtain ⟨xs, l, ys, hscan, rfl, -⟩ := Token.exists_of_place_eq_append hsplit
    have hspan : (⟨source.path, .through .first xs, .through .first (xs ++ [l])⟩ : Span).Clean
        source := source.clean_through hscan
    rwa [Position.through_append] at hspan
  have hend : source.endSpan.Clean source := by
    have hscan : Lexeme.scan source.text = Lexeme.scan source.text ++ ([] ++ []) := by simp
    have hspan := source.clean_through hscan
    rwa [List.append_nil] at hspan
  -- all other spans are merged from these or are at their fronts
  exact source.forall_spans_of_tokens (fun _ _ hs ht => Span.Clean.merge hs ht)
    (fun _ hs => Span.Clean.shrinkToStart hs) htokens hend options

end Source

/-! ### What is shown -/

namespace Diagnostic

/-- What stands under a character in front of the carets. -/
def blank (c : Char) : Char :=
  if c = '\t' then '\t' else ' '

/-- A line with its number, and under it a text and carets. -/
def sketch (number : Nat) (line under : List Char) (carets : Nat) : String :=
  "   |\n" ++ padLeft 3 (toString number) ++ " | " ++ String.ofList line ++ "\n   | "
    ++ String.ofList (under ++ List.replicate carets '^') ++ "\n"

/-- The notes and the suggestions of a finding, as they are shown. -/
def remarks (d : Diagnostic) : String :=
  String.join (d.notes.map fun n => "   = note: " ++ n.message ++ "\n")
    ++ String.join (d.suggestions.map fun s => "   = help: " ++ s.title ++ "\n")

/-- Up to the column behind a part of a line, there is one character under each of this part. -/
theorem caretPadding_append (column : Nat) (left right : List Char) :
    caretPadding (column + Text.unitLength left) column (left ++ right) = left.map blank := by
  induction left generalizing column with
  | nil =>
    cases right with
    | nil => rfl
    | cons c right => simp [caretPadding]
  | cons c left ih =>
    have hpos := Text.unitSize_pos c
    -- the target column is not reached before the whole part is passed
    have hlt : column < column + Text.unitLength (c :: left) := by
      rw [Text.unitLength_cons]
      omega
    have htarget : column + Text.unitLength (c :: left) =
        column + Text.unitSize c + Text.unitLength left := by
      rw [Text.unitLength_cons, Nat.add_assoc]
    rw [List.cons_append, caretPadding, if_pos hlt, htarget, ih]
    rfl

theorem render_of_line {d : Diagnostic} {text line : List Char}
    (h : (Text.splitLines text)[d.span.start.line - 1]? = some line) :
    d.render text = d.headline ++ excerpt d.span line ++ d.remarks := by
  unfold render remarks
  rw [h, String.append_assoc]
  rfl

end Diagnostic

/-- A span begins in a line of a text and covers a part of this line: from where it begins up to its
end, or up to the end of the line if that comes first. -/
structure Span.CoversInLine (s : Span) (text before left covered right after : List Char) :
    Prop where
  line : Text.IsLine text before (left ++ (covered ++ right)) after
  start_eq : s.start.offset = Text.byteLength (before ++ left)
  stop_eq : min s.stop.offset (Text.byteLength (before ++ (left ++ (covered ++ right)))) =
    Text.byteLength (before ++ (left ++ covered))

/-- **The line of a clean span.** A clean span begins in the line with the number of its start, and
its column says how much of the line is in front of it. If it ends on this line, then its columns
say how much of the line it covers, and otherwise it covers the rest of the line. -/
theorem Span.Clean.exists_coversInLine {source : Source} {s : Span} (h : s.Clean source) :
    ∃ before left covered right after, s.CoversInLine source.text before left covered right after ∧
      (Text.splitLines source.text)[s.start.line - 1]? = some (left ++ (covered ++ right)) ∧
      s.start.column = 1 + Text.unitLength left ∧
      (s.stop.line = s.start.line ∧ s.stop.column = s.start.column + Text.unitLength covered ∨
        s.stop.line ≠ s.start.line ∧ right = []) := by
  obtain ⟨front, rest, htext, hfront, hclean⟩ := h.start_clean
  obtain ⟨upto, behind, htext', hupto, hclean'⟩ := h.stop_clean
  have hle : Text.byteLength front ≤ Text.byteLength upto := by
    rw [hfront, hupto]
    exact h.genuine.ordered
  obtain ⟨mid, rfl, rfl⟩ := Text.exists_mid (htext'.symm.trans htext) hle
  -- both places are reached by stepping over what is in front of them
  have hstart : s.start = Position.first.walk front (mid ++ behind) := by
    rw [h.genuine.start_eq, ← hfront, source.position_of_eq_append htext]
  have hstop : s.stop = s.start.walk mid behind := by
    rw [h.genuine.stop_eq, ← hupto, source.position_of_eq_append htext', Position.walk_append,
      hstart]
  obtain ⟨before, left, right, after, rfl, hrest, hline, k, hk, hnumber, hcolumn⟩ :=
    (Text.hasLines_splitLines source.text).exists_line htext hclean (p := .first) rfl
  rw [← hstart] at hnumber hcolumn
  have hindex : s.start.line - 1 = k := by
    rw [hnumber]
    exact Nat.add_sub_cancel_left 1 k
  have hright : Text.WithinLine right := (List.forall_mem_append.mp hline.within).2
  rcases Nat.lt_or_ge (Text.byteLength right) (Text.byteLength mid) with hlt | hge
  · -- the span goes on behind the line
    obtain ⟨more, rfl, hafter, hne⟩ := Text.exists_mid_of_lt hrest hlt
    have hlater : s.start.line < s.stop.line := by
      have hnext := hline.line_lt_walk hafter hne hclean'.right.right
        (s.start.walk right (more ++ behind))
      rw [hstop, Position.walk_append]
      rwa [s.start.walk_of_withinLine hright] at hnext ⊢
    refine ⟨before, left, right, [], after, ⟨by rwa [List.append_nil], hfront.symm, ?_⟩, ?_,
      hcolumn, .inr ⟨hlater.ne', rfl⟩⟩
    · rw [← hupto, List.append_nil]
      simp only [Text.byteLength_append]
      omega
    · rw [hindex, hk, List.append_nil]
  · -- the span ends in the line
    obtain ⟨right', rfl, hbehind⟩ := Text.exists_mid hrest.symm hge
    have hmid : Text.WithinLine mid := (List.forall_mem_append.mp hright).1
    rw [s.start.walk_of_withinLine hmid] at hstop
    refine ⟨before, left, mid, right', after, ⟨hline, hfront.symm, ?_⟩, ?_, hcolumn,
      .inl ⟨by rw [hstop], by rw [hstop]⟩⟩
    · rw [← hupto]
      simp only [Text.byteLength_append]
      omega
    · rw [hindex, hk]

/-- The carets under a line are as many as the units or as the characters that are covered. -/
theorem Diagnostic.excerpt_eq_sketch {s : Span} {left covered right : List Char}
    (hstart : s.start.column = 1 + Text.unitLength left)
    (hstop : s.stop.line = s.start.line ∧ s.stop.column = s.start.column + Text.unitLength covered ∨
      s.stop.line ≠ s.start.line ∧ right = []) :
    excerpt s (left ++ (covered ++ right)) =
      sketch s.start.line (left ++ (covered ++ right)) (left.map blank)
        (max 1 (if s.stop.line = s.start.line then Text.unitLength covered
          else covered.length)) := by
  have hpadding : caretPadding s.start.column 1 (left ++ (covered ++ right)) = left.map blank := by
    rw [hstart, caretPadding_append]
  have hcount : caretCount s (left ++ (covered ++ right)) (left.map blank) =
      max 1 (if s.stop.line = s.start.line then Text.unitLength covered else covered.length) := by
    unfold caretCount
    -- on one line columns are counted, and otherwise characters up to its end
    rcases hstop with ⟨hline, hcolumn⟩ | ⟨hline, rfl⟩
    · rw [if_pos hline, if_pos hline, hcolumn, Nat.add_sub_cancel_left, Nat.max_comm]
    · rw [if_neg hline, if_neg hline, List.append_nil, List.length_append, List.length_map,
        Nat.add_sub_cancel_left, Nat.max_comm]
  show sketch s.start.line _ (caretPadding s.start.column 1 _)
    (caretCount s _ (caretPadding s.start.column 1 _)) = _
  rw [hpadding, hcount]

/-- **Carets under the line of a finding.** Every finding about a source is shown with the line in
which its span begins. Under this line, one character stands for each in front of the span, a
tabulator for a tabulator and a space for any other, and then there are carets, at least one. If the
span goes on behind the line they are as many as the characters of the line that the span covers;
otherwise they are as many as the UTF-16 units of these characters, which is the same number exactly
if each of them is one unit. -/
theorem Source.carets_under_line (source : Source) (options : CheckOptions) {d : Diagnostic}
    (hd : d ∈ source.check options) :
    ∃ before left covered right after carets,
      d.span.CoversInLine source.text before left covered right after ∧
      d.render source.text = d.headline ++
        Diagnostic.sketch d.span.start.line (left ++ (covered ++ right)) (left.map Diagnostic.blank)
          carets ++ d.remarks ∧
      carets = max 1 (if d.span.stop.line = d.span.start.line then Text.unitLength covered
        else covered.length) ∧
      (carets = max 1 covered.length ↔
        d.span.stop.line = d.span.start.line → ∀ c ∈ covered, Text.unitSize c = 1) := by
  have hclean : d.span.Clean source :=
    source.clean_of_mem_spans options d hd d.span List.mem_cons_self
  obtain ⟨before, left, covered, right, after, hcovers, hline, hstart, hstop⟩ :=
    hclean.exists_coversInLine
  refine ⟨before, left, covered, right, after, _, hcovers, ?_, rfl, ?_⟩
  · rw [Diagnostic.render_of_line hline, Diagnostic.excerpt_eq_sketch hstart hstop]
  · -- no covered character means one caret in either way of counting
    have hle := Text.length_le_unitLength covered
    rw [← Text.unitLength_eq_length_iff]
    by_cases hsame : d.span.stop.line = d.span.start.line
    · rw [if_pos hsame]
      have hempty : covered.length = 0 → Text.unitLength covered = 0 := by
        intro hnil
        rw [List.length_eq_zero_iff.mp hnil]
        rfl
      omega
    · rw [if_neg hsame]
      simp [hsame]

/-- A source with a pattern behind a tabulator that goes over two lines. -/
def indented : Source :=
  .ofString "tab.pmxc" "enum B \x7b T \x7d\nmatch T \x7b\n\tT(\n\tT) => \x7b\x7d \x7d\n"

/-- The finding about this pattern. -/
def indentedFinding : Diagnostic :=
  ⟨"E1007", .error, "Wrong number of arguments for `T` (1 → 0)",
    ⟨"tab.pmxc", ⟨24, 3, 2⟩, ⟨30, 4, 4⟩⟩, [⟨"`T` takes 0 arguments", none⟩], []⟩

theorem indented_carets_to_line_end :
    indentedFinding ∈ indented.check .default ∧
      ∃ before left covered right after carets,
        indentedFinding.span.CoversInLine indented.text before left covered right after ∧
        indentedFinding.render indented.text = indentedFinding.headline ++
          Diagnostic.sketch 3 (left ++ (covered ++ right)) (left.map Diagnostic.blank) carets ++
          indentedFinding.remarks ∧
        carets = max 1 covered.length := by
  have hd : indentedFinding ∈ indented.check .default := by decide +kernel
  obtain ⟨before, left, covered, right, after, carets, hcovers, hrender, -, hcarets⟩ :=
    Source.carets_under_line indented .default hd
  have htwoLines : indentedFinding.span.stop.line ≠ indentedFinding.span.start.line := by decide
  exact ⟨hd, before, left, covered, right, after, carets, hcovers, hrender,
    hcarets.mpr fun hsame => absurd hsame htwoLines⟩

/-- A source of one character, which is two UTF-16 units. -/
def smiley : Source :=
  .ofString "x.pmxc" "😀"

/-- Its one finding has two carets under one character. -/
theorem wide_char_two_carets :
    smiley.text.length = 1 ∧ (smiley.check .default).map (·.render smiley.text) =
      ["error[E0001]: Expected `enum` or `match`, found `😀`\n  --> x.pmxc:1:1\n" ++
        "   |\n  1 | 😀\n   | ^^\n"] := by
  decide +kernel

end MatchCheck
