import Mathlib.Order.Monotone.Basic
import MatchCheck.Proofs.Program.Leaf
import MatchCheck.Proofs.Program.Relocated
import MatchCheck.Proofs.Token.Place

/-!
# Leaves by rank

The form of a leaf is what is left of it without layout: its kind, its text, and whether its line
ends behind it. Forms can be placed without any text (`Token.ranked`): a token stands at its rank
among the tokens, on the line whose rank is the number of line ends in front of it.

The leaves of a source are tokens of their forms, placed by rank and then put elsewhere. The map
that does it looks up the places of the leaves by rank, and beyond the last of them it goes on
upwards, so that it keeps the order of all spans, also of those that no token has
(`Leaf.keeps_unrank`). So a source is read as its forms are (`Source.exists_program_eq`), and
another source with these forms is read alike.
-/

namespace MatchCheck

/-! ### Looking up by rank -/

/-- The number at a rank of a list. Behind the list the numbers go on, above the last one in it. -/
def valueAt (xs : List Nat) (rank : Nat) : Nat :=
  xs[rank]?.getD (xs.getLast?.getD 0 + rank)

theorem valueAt_append_cons (xs : List Nat) (x : Nat) (ys : List Nat) :
    valueAt (xs ++ x :: ys) xs.length = x := by
  simp [valueAt]

/-- If the numbers of a list ascend, those looked up by rank ascend, also behind the list. -/
theorem strictMono_valueAt {xs : List Nat} (h : xs.Pairwise (· < ·)) : StrictMono (valueAt xs) := by
  intro i j hij
  -- beyond the list the values go on behind its last one, by the index
  have hbehind : ∀ k, xs.length ≤ k → valueAt xs k = xs.getLast?.getD 0 + k := by
    intro k hk
    rw [valueAt, List.getElem?_eq_none hk, Option.getD_none]
  have hinside : ∀ k (hk : k < xs.length), valueAt xs k = xs[k] := by
    intro k hk
    rw [valueAt, List.getElem?_eq_getElem hk, Option.getD_some]
  by_cases hj : j < xs.length
  · have hi : i < xs.length := by omega
    rw [hinside i hi, hinside j hj]
    exact List.pairwise_iff_getElem.mp h i j hi hj hij
  · rw [hbehind j (by omega)]
    by_cases hi : i < xs.length
    · have hle : valueAt xs i ≤ xs.getLast?.getD 0 := by
        have hlast : xs.length - 1 < xs.length := by omega
        rw [List.getLast?_eq_getElem?, List.getElem?_eq_getElem hlast, Option.getD_some,
          ← hinside _ hlast]
        by_cases heq : i = xs.length - 1
        · rw [heq]
        · rw [hinside i hi, hinside _ hlast]
          exact Nat.le_of_lt (List.pairwise_iff_getElem.mp h i _ hi hlast (by omega))
      omega
    · rw [hbehind i (by omega)]
      omega

/-! ### Forms -/

/-- What is left of a leaf without layout: its kind, its text, and whether its line ends behind it.
-/
def Leaf.form (l : Leaf) : TokenKind × List Char × Bool :=
  (l.kind, l.token.text, l.lastInLine)

/-- The span of the token of a rank, on the line of a rank. -/
def Span.ofRanks (rank line : Nat) : Span :=
  ⟨"", ⟨rank, line, 0⟩, ⟨rank, line, 0⟩⟩

/-- Tokens of the given forms, placed by rank from the given ranks on. -/
def Token.ranked (rank line : Nat) : List (TokenKind × List Char × Bool) → List Token
  | [] => []
  | (kind, text, last) :: fs =>
    ⟨kind, text, .ofRanks rank line⟩ :: ranked (rank + 1) (if last then line + 1 else line) fs

/-- Tokens in two parts are ranked part by part. The second part begins behind all leaves and all
lines of the first. -/
theorem Token.ranked_append (rank line : Nat) (fs fs' : List (TokenKind × List Char × Bool)) :
    ranked rank line (fs ++ fs') =
      ranked rank line fs ++ ranked (rank + fs.length) (line + fs.countP (·.2.2)) fs' := by
  induction fs generalizing rank line with
  | nil => rfl
  | cons f fs ih =>
    obtain ⟨kind, text, last⟩ := f
    rw [List.cons_append, ranked, ranked, ih, List.cons_append, List.length_cons]
    -- behind the last leaf of a line the next line begins
    cases last with
    | false =>
      rw [List.countP_cons_of_neg (by simp)]
      congr 3
      omega
    | true =>
      rw [List.countP_cons_of_pos rfl, if_pos rfl]
      congr 3 <;> omega

/-! ### From ranks to places -/

/-- The place whose offset, line and column are looked up by rank. -/
def Position.unrank (offsets columns lines : List Nat) (p : Position) : Position :=
  ⟨valueAt offsets p.offset, valueAt lines p.line, valueAt columns p.offset⟩

namespace Leaf

/-- Leaves of a file, none of which goes over a line end, and whose lines go up exactly where a line
ends. -/
structure Paged (file : String) (ls : List Leaf) : Prop where
  lined : Lined ls
  file_eq : ∀ l ∈ ls, l.span.file = file
  flat : ∀ l ∈ ls, l.span.stop.line = l.span.start.line
  lines_le : ls.Pairwise fun l m => l.span.stop.line ≤ m.span.start.line ∧
    (l.lastInLine = true → l.span.stop.line < m.span.start.line)

/-- The lines of leaves, by rank: each is the line of the last leaf in it. -/
def lines (ls : List Leaf) : List Nat :=
  (ls.filter (·.lastInLine)).map (·.span.stop.line)

/-- Puts a span that is made of ranks where the leaves of these ranks are. -/
def unrank (file : String) (ls : List Leaf) (s : Span) : Span where
  file := file
  start := s.start.unrank (ls.map (·.span.start.offset)) (ls.map (·.span.start.column)) (lines ls)
  stop := s.stop.unrank (ls.map (·.span.stop.offset)) (ls.map (·.span.stop.column)) (lines ls)

variable {file : String} {ls front back : List Leaf} {l : Leaf}

/-- The lines of leaves ascend. -/
theorem Paged.pairwise_lines (h : Paged file ls) : (lines ls).Pairwise (· < ·) := by
  rw [lines, List.pairwise_map]
  have hpairwise := h.lines_le.filter (·.lastInLine)
  refine hpairwise.imp_of_mem fun hl hm hlm => ?_
  have hlast := (List.mem_filter.mp hl).2
  rw [h.flat _ (List.mem_filter.mp hm).1]
  exact hlm.2 hlast

/-- **Putting ranks where leaves are keeps all order**, since starts, ends and lines of leaves
go up. -/
theorem keeps_unrank (h : Paged file ls) : Span.Keeps (unrank file ls) := by
  have hstarts : StrictMono (valueAt (ls.map (·.span.start.offset))) := by
    refine strictMono_valueAt (List.pairwise_map.mpr ?_)
    exact h.lined.ascending
  have hstops : StrictMono (valueAt (ls.map (·.span.stop.offset))) := by
    refine strictMono_valueAt (List.pairwise_map.mpr ?_)
    refine h.lined.ordered.imp_of_mem fun _ hm hlm => ?_
    exact Nat.lt_of_le_of_lt hlm (h.lined.proper _ hm)
  have hlines : StrictMono (valueAt (lines ls)) := strictMono_valueAt h.pairwise_lines
  -- merging compares offsets alone, which is the same before and after
  refine ⟨fun s t => ?_, fun s t => hstarts.le_iff_le, fun s t => hlines.lt_iff_lt⟩
  simp only [unrank, Span.merge, apply_ite (Position.unrank _ _ _)]
  simp only [Position.unrank, hstarts.le_iff_le, hstops.le_iff_le]

/-- The line of a leaf is the first of the lines from it on. -/
theorem Paged.exists_lines_cons (h : Paged file (l :: ls))
    (hlast : ∀ m ∈ (l :: ls).getLast?, m.lastInLine = true) :
    ∃ later, lines (l :: ls) = l.span.stop.line :: later := by
  -- up to the leaf with which the line ends
  induction ls generalizing l with
  | nil =>
    have hl : l.lastInLine = true := hlast l rfl
    exact ⟨[], by simp [lines, hl]⟩
  | cons m ls ih =>
    by_cases hl : l.lastInLine = true
    · exact ⟨lines (m :: ls), by simp [lines, hl]⟩
    · -- the next leaf is in the same line
      have htail : Paged file (m :: ls) :=
        ⟨h.lined.tail, (List.forall_mem_cons.mp h.file_eq).2, (List.forall_mem_cons.mp h.flat).2,
          (List.pairwise_cons.mp h.lines_le).2⟩
      obtain ⟨later, hlater⟩ := ih htail (by simpa using hlast)
      have hle := ((List.pairwise_cons.mp h.lines_le).1 m List.mem_cons_self).1
      have hnot := mt (List.isChain_cons_cons.mp h.lined.lines).1.mpr hl
      have hflat := h.flat m (by simp)
      refine ⟨later, ?_⟩
      rw [show lines (l :: m :: ls) = lines (m :: ls) by simp [lines, hl], hlater]
      congr 1
      omega

theorem lines_append : lines (front ++ back) = lines front ++ lines back := by
  rw [lines, List.filter_append, List.map_append]
  rfl

/-- There are as many lines as leaves that are last in one. -/
theorem length_lines : (lines ls).length = ls.countP (·.lastInLine) := by
  rw [lines, List.length_map, List.countP_eq_length_filter]

/-- A leaf stands where its ranks are put. -/
theorem Paged.unrank_ofRanks (h : Paged file (front ++ l :: back))
    (hlast : ∀ m ∈ (front ++ l :: back).getLast?, m.lastInLine = true) :
    unrank file (front ++ l :: back) (.ofRanks front.length (front.countP (·.lastInLine))) =
      l.span := by
  have hmem : l ∈ front ++ l :: back := List.mem_append_right _ List.mem_cons_self
  have hfrom : Paged file (l :: back) :=
    ⟨h.lined.right, fun m hm => h.file_eq m (List.mem_append_right _ hm),
      fun m hm => h.flat m (List.mem_append_right _ hm), (List.pairwise_append.mp h.lines_le).2.1⟩
  have hvalue (f : Leaf → Nat) : valueAt ((front ++ l :: back).map f) front.length = f l := by
    have h := valueAt_append_cons (front.map f) (f l) (back.map f)
    rwa [List.length_map, ← List.map_cons, ← List.map_append] at h
  -- the line of a leaf is the one that follows those which end in front of it
  have hline : valueAt (lines (front ++ l :: back)) (front.countP (·.lastInLine)) =
      l.span.stop.line := by
    obtain ⟨later, hlater⟩ := hfrom.exists_lines_cons (by simpa using hlast)
    rw [lines_append, hlater, ← length_lines]
    exact valueAt_append_cons _ _ _
  have hstart : (Position.mk front.length (front.countP (·.lastInLine)) 0).unrank
      ((front ++ l :: back).map (·.span.start.offset))
      ((front ++ l :: back).map (·.span.start.column)) (lines (front ++ l :: back)) =
        l.span.start := by
    simp only [Position.unrank, hvalue, hline, h.flat l hmem]
  have hstop : (Position.mk front.length (front.countP (·.lastInLine)) 0).unrank
      ((front ++ l :: back).map (·.span.stop.offset))
      ((front ++ l :: back).map (·.span.stop.column)) (lines (front ++ l :: back)) =
        l.span.stop := by
    simp only [Position.unrank, hvalue, hline]
  rw [unrank, Span.ofRanks, hstart, hstop, ← h.file_eq l hmem]

/-- **Leaves are ranked tokens at other places.** -/
theorem Paged.map_token_eq (h : Paged file (front ++ back))
    (hlast : ∀ m ∈ (front ++ back).getLast?, m.lastInLine = true) :
    back.map token =
      (Token.ranked front.length (front.countP (·.lastInLine)) (back.map form)).map
        (Token.move (unrank file (front ++ back))) := by
  -- leaf by leaf, with those in front of it to count the ranks
  induction back generalizing front with
  | nil => rfl
  | cons l back ih =>
    have hspan := h.unrank_ofRanks hlast
    rw [List.append_cons] at h hlast hspan ⊢
    have htail := ih h hlast
    have hcount : (front ++ [l]).countP (·.lastInLine) =
        if l.lastInLine then front.countP (·.lastInLine) + 1 else front.countP (·.lastInLine) := by
      rw [List.countP_append, List.countP_singleton]
      split <;> rfl
    rw [List.length_append, List.length_singleton, hcount] at htail
    rw [List.map_cons, htail]
    show _ = (⟨l.kind, l.token.text, unrank file (front ++ [l] ++ back) _⟩ : Token) :: _
    rw [hspan]

/-! ### Placed leaves -/

/-- No leaf stands above the place where the placing began, and below it if a line ends first. -/
theorem line_le_of_mem_placed {file : String} {p : Position} {ls : List Lexeme} {l : Leaf}
    (h : l ∈ placed file p ls) :
    p.line ≤ l.span.start.line ∧
      (TokenKind.breaksFirst (ls.map (·.kind)) = true → p.line < l.span.start.line) := by
  induction ls generalizing p with
  | nil => cases h
  | cons m ls ih =>
    by_cases hm : m.kind.isTrivia = true
    · rw [placed_cons_of_isTrivia hm] at h
      obtain ⟨hle, hlt⟩ := ih h
      -- only a line break moves the leaves behind it down
      by_cases hnew : m.kind = .newline
      · rw [p.line_advance_of_newline hnew] at hle
        exact ⟨by omega, fun _ => by omega⟩
      · rw [p.line_advance_of_ne hnew] at hle hlt
        refine ⟨hle, fun hbreak => hlt ?_⟩
        simpa [TokenKind.breaksFirst_cons, hm, hnew] using hbreak
    · have hm : m.kind.isTrivia = false := by simpa using hm
      refine ⟨?_, fun hbreak => by simp [TokenKind.breaksFirst_cons, hm] at hbreak⟩
      rw [placed_cons_of_not_isTrivia hm] at h
      rcases List.mem_cons.mp h with rfl | h
      · exact Nat.le_refl _
      · have hle := (ih h).1
        rwa [p.line_advance_of_not_isTrivia hm] at hle

/-- **Placed leaves are pages**: none of them goes over a line end. -/
theorem paged_placed {file : String} {p : Position} {ls : List Lexeme}
    (h : ∀ l ∈ ls, l.text ≠ []) : Paged file (placed file p ls) := by
  induction ls generalizing p with
  | nil => exact ⟨lined_placed h, fun _ hl => (List.not_mem_nil hl).elim,
      fun _ hl => (List.not_mem_nil hl).elim, .nil⟩
  | cons m ls ih =>
    have hrest : Paged file (placed file (p.advance m) ls) :=
      ih fun l hl => h l (List.mem_cons_of_mem m hl)
    -- trivia is passed over, also where it goes over lines
    by_cases hm : m.kind.isTrivia = true
    · rwa [placed_cons_of_isTrivia hm]
    · have hm : m.kind.isTrivia = false := by simpa using hm
      have hline := p.line_advance_of_not_isTrivia hm
      have hlined := @lined_placed file p (m :: ls) h
      rw [placed_cons_of_not_isTrivia hm] at hlined ⊢
      refine ⟨hlined, List.forall_mem_cons.mpr ⟨rfl, hrest.file_eq⟩,
        List.forall_mem_cons.mpr ⟨hline, hrest.flat⟩, List.pairwise_cons.mpr ⟨?_, hrest.lines_le⟩⟩
      exact fun l hl => line_le_of_mem_placed hl

/-- In front of a token that is no trivia the leaves can be cut. -/
theorem ofTokens_append_cons {xs ys : List Token} {t : Token} (h : t.kind.isTrivia = false) :
    ofTokens (xs ++ t :: ys) = ofTokens xs ++ ofTokens (t :: ys) := by
  induction xs with
  | nil => rfl
  | cons x xs ih =>
    rw [List.cons_append, ofTokens_cons, ofTokens_cons, ih, List.map_append, List.map_cons,
      TokenKind.breaksFirst_append_cons h]
    split <;> rfl

end Leaf

/-! ### Reading by rank -/

/-- The token that stands for the end of ranked tokens. -/
def Token.rankedEnd (fs : List (TokenKind × List Char × Bool)) : Token :=
  ⟨.endOfInput, [], .ofRanks fs.length (fs.countP (·.2.2))⟩

/-- The program of tokens of which only the forms are given. -/
def Program.ofForms (fs : List (TokenKind × List Char × Bool)) : Program × List SyntaxError :=
  ofTokens (.rankedEnd fs) (Token.ranked 0 0 fs)

namespace Source

variable (source : Source)

/-- The forms of the leaves of a source. -/
def forms : List (TokenKind × List Char × Bool) :=
  source.leaves.map Leaf.form

/-- A leaf at the end of a source, as if the text went on with it and its line ended there. -/
def endLeaf : Leaf where
  token := ⟨.unknown, ['.'], source.path, source.endSpan.start,
    source.endSpan.start.advance ⟨.unknown, ['.']⟩⟩
  lastInLine := true

/-- The leaves of a source, with one more at its end, are the leaves of a longer text. -/
theorem paged_leaves_endLeaf : Leaf.Paged source.path (source.leaves ++ [source.endLeaf]) := by
  -- the longer text ends with a dot and a line end
  have hplaced : source.leaves ++ [source.endLeaf] = Leaf.placed source.path .first
      (Lexeme.scan source.text ++ [⟨.unknown, ['.']⟩, ⟨.newline, ['\n']⟩]) := by
    rw [Leaf.placed, Token.place_append, Token.place_cons, Token.place_cons,
      Leaf.ofTokens_append_cons rfl]
    rfl
  rw [hplaced]
  refine Leaf.paged_placed fun l hl => ?_
  rcases List.mem_append.mp hl with hl | hl
  · exact (Lexeme.tiled_scan source.text).1.text_ne_nil_of_mem hl
  · rcases List.mem_pair.mp hl with rfl | rfl <;> simp

/-- **A source is its forms, placed by rank and put elsewhere** in a way that keeps all order. -/
theorem exists_keeps : ∃ g, Span.Keeps g ∧
    source.leaves.map Leaf.token = (Token.ranked 0 0 source.forms).map (Token.move g) ∧
    (Token.rankedEnd source.forms).Moved g source.endToken := by
  have hpaged := source.paged_leaves_endLeaf
  have hlast : ∀ m ∈ (source.leaves ++ [source.endLeaf]).getLast?, m.lastInLine = true := by
    intro m hm
    rw [List.getLast?_concat] at hm
    cases hm
    rfl
  have hkeeps := Leaf.keeps_unrank hpaged
  refine ⟨_, hkeeps, ?_, rfl, rfl, fun h => absurd rfl h, fun s => ?_⟩
  · have htokens : (source.leaves ++ [source.endLeaf]).map Leaf.token =
        (Token.ranked 0 0 ((source.leaves ++ [source.endLeaf]).map Leaf.form)).map
          (Token.move (Leaf.unrank source.path (source.leaves ++ [source.endLeaf]))) :=
      @Leaf.Paged.map_token_eq _ [] _ hpaged hlast
    rw [List.map_append, List.map_append, Token.ranked_append, List.map_append] at htokens
    exact (List.append_inj' htokens rfl).1
  · -- the end stands where the leaf at the end would stand
    have hend := hpaged.unrank_ofRanks hlast
    have hcount : source.forms.countP (·.2.2) = source.leaves.countP (·.lastInLine) := by
      rw [forms, List.countP_map]
      rfl
    have hline := hkeeps.line_lt s (Token.rankedEnd source.forms).span
    rw [Token.rankedEnd, forms, List.length_map, ← forms, hcount, hend] at hline
    rw [Token.rankedEnd, hcount]
    exact hline

/-- **A source is read as its forms are.** Its program is that of its forms, put elsewhere, and the
errors met in it are the same without their places. -/
theorem exists_program_eq : ∃ g, Span.Keeps g ∧
    source.program.1 = (Program.ofForms source.forms).1.relocate g g ∧
    source.program.2.map SyntaxError.erase =
      (Program.ofForms source.forms).2.map SyntaxError.erase := by
  obtain ⟨g, hg, htokens, hend⟩ := source.exists_keeps
  obtain ⟨hitems, herrors⟩ := Program.itemsFrom_map_move hg hend (Token.ranked 0 0 source.forms)
  rw [← htokens, source.map_token_leaves] at hitems herrors
  exact ⟨g, hg, congrArg Program.mk hitems, herrors⟩

end Source

end MatchCheck
