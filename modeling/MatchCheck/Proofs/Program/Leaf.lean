import Mathlib.Data.List.Chain
import MatchCheck.Program.Grammar
import MatchCheck.Proofs.Token.Tiling

/-!
# Leaves

What the grammar of programs sees of a source: its tokens without the trivia, and for each of them
whether the line ends behind it before the next one begins. Line ends are trivia, but one of them
may divide two constructors, so that this much of the layout belongs to the grammar.

The tokens are placed, and the reader of programs looks at their lines and not at line ends.
`Source.lined_leaves` says that for the leaves of a source the two are the same.
-/

namespace MatchCheck

namespace TokenKind

/-- Whether a line ends before the first kind other than that of comments and blanks. -/
def breaksFirst : List TokenKind → Bool
  | .newline :: _ => true
  | .lineComment :: ks | .blank :: ks => breaksFirst ks
  | _ => false

/-- Step by step: a line end decides, other trivia is passed over, and anything else ends the
search. -/
theorem breaksFirst_cons (k : TokenKind) (ks : List TokenKind) :
    breaksFirst (k :: ks) = (k.isTrivia && (k == .newline || breaksFirst ks)) := by
  cases k <;> rfl

variable {ks ks' : List TokenKind}

/-- Only what stands in front of the first leaf matters. -/
theorem breaksFirst_append (h : ∃ k ∈ ks, k.isTrivia = false) :
    breaksFirst (ks ++ ks') = breaksFirst ks := by
  induction ks with
  | nil => simp at h
  | cons k ks ih =>
    rw [List.cons_append, breaksFirst_cons, breaksFirst_cons]
    -- trivia is looked over, and the first other token decides
    by_cases hk : k.isTrivia = true
    · obtain ⟨m, hm, htrivia⟩ := h
      rcases List.mem_cons.mp hm with rfl | hm
      · simp [hk] at htrivia
      · rw [ih ⟨m, hm, htrivia⟩]
    · simp [hk]

/-- What comes behind a leaf does not matter. -/
theorem breaksFirst_append_cons {k : TokenKind} (h : k.isTrivia = false) :
    breaksFirst (ks ++ k :: ks') = breaksFirst ks := by
  induction ks with
  | nil =>
    rw [List.nil_append, breaksFirst_cons, h, Bool.false_and]
    rfl
  | cons m ks ih => rw [List.cons_append, breaksFirst_cons, breaksFirst_cons, ih]

/-- Two kinds of trivia that are the same count as one. -/
theorem breaksFirst_fuse (k : TokenKind) :
    breaksFirst (ks ++ k :: k :: ks') = breaksFirst (ks ++ k :: ks') := by
  induction ks with
  | nil => cases k <;> rfl
  | cons m ks ih =>
    rw [List.cons_append, List.cons_append, breaksFirst_cons, breaksFirst_cons, ih]

end TokenKind

theorem Token.map_kind_place (file : String) (p : Position) (ls : List Lexeme) :
    (place file p ls).map (·.kind) = ls.map (·.kind) := by
  induction ls generalizing p with
  | nil => rfl
  | cons l ls ih => rw [place_cons, List.map_cons, List.map_cons, ih]

/-- A token that is no trivia. -/
structure Leaf where
  token : Token
  /-- Whether the line ends behind the token before the next one begins. -/
  lastInLine : Bool
deriving DecidableEq, Repr

namespace Leaf

/-- The kind of the token. -/
abbrev kind (l : Leaf) : TokenKind :=
  l.token.kind

/-- The span of the token. -/
abbrev span (l : Leaf) : Span :=
  l.token.span

/-- The leaves of a token sequence. Comments, blanks and line ends are left out, and only whether a
line ends behind a leaf is kept of them. -/
def ofTokens : List Token → List Leaf
  | [] => []
  | t :: ts =>
    match t.kind with
    | .lineComment | .blank | .newline => ofTokens ts
    | _ => ⟨t, TokenKind.breaksFirst (ts.map (·.kind))⟩ :: ofTokens ts

/-- What is left out is the trivia, which the reader of programs passes over. -/
theorem ofTokens_cons (t : Token) (ts : List Token) :
    ofTokens (t :: ts) =
      if t.kind.isTrivia then ofTokens ts
      else ⟨t, TokenKind.breaksFirst (ts.map (·.kind))⟩ :: ofTokens ts := by
  rw [ofTokens]
  cases t.kind <;> rfl

/-- The tokens of the leaves are those that the reader of programs is given. -/
theorem map_token_ofTokens (ts : List Token) :
    (ofTokens ts).map token = ts.filter (!·.kind.isTrivia) := by
  induction ts with
  | nil => rfl
  | cons t ts ih =>
    rw [ofTokens_cons]
    -- a token is dropped from both lists or from none
    split
    · next h => rw [ih, List.filter_cons_of_neg (by simp [h])]
    · next h => rw [List.map_cons, ih, List.filter_cons_of_pos (by simp [h])]

/-- Leaves that stand one behind the other, so that a line that ends between two of them can be told
from their lines. -/
structure Lined (ls : List Leaf) : Prop where
  proper : ∀ l ∈ ls, l.span.start.offset < l.span.stop.offset
  ordered : ls.Pairwise fun l m => l.span.stop.offset ≤ m.span.start.offset
  lines : ls.IsChain fun l m => l.lastInLine = true ↔ l.span.stop.line < m.span.start.line

/-- Leaves that stand together in a sequence stand as they do in it. -/
theorem Lined.of_infix {ls ms : List Leaf} (h : Lined ls) (hms : ms <:+: ls) : Lined ms where
  proper l hl := h.proper l (hms.subset hl)
  ordered := h.ordered.sublist hms.sublist
  lines := h.lines.infix hms

theorem Lined.tail {l : Leaf} {ls : List Leaf} (h : Lined (l :: ls)) : Lined ls :=
  h.of_infix (List.suffix_cons l ls).isInfix

theorem Lined.right {ls ms : List Leaf} (h : Lined (ls ++ ms)) : Lined ms :=
  h.of_infix (List.suffix_append ls ms).isInfix

theorem Lined.left {ls ms : List Leaf} (h : Lined (ls ++ ms)) : Lined ls :=
  h.of_infix (List.prefix_append ls ms).isInfix

/-- Every leaf begins behind those in front of it. -/
def Ascending (ls : List Leaf) : Prop :=
  ls.Pairwise fun l m => l.span.start.offset < m.span.start.offset

/-- Leaves have a text, so that the next one begins behind the beginning of the last. -/
theorem Lined.ascending {ls : List Leaf} (h : Lined ls) : Ascending ls :=
  h.ordered.imp_of_mem fun hl _ hlm => Nat.lt_of_lt_of_le (h.proper _ hl) hlm

/-- Between neighbours, whether a line ends can be told from their lines. -/
theorem Lined.lastInLine_iff {ls ms : List Leaf} {l m : Leaf} (h : Lined (ls ++ l :: m :: ms)) :
    l.lastInLine = true ↔ l.span.stop.line < m.span.start.line :=
  (List.isChain_cons_cons.mp h.right.lines).1

/-- A leaf ends before any later leaf ends. -/
theorem Lined.offset_stop_lt {l m : Leaf} {ls : List Leaf} (h : Lined (l :: ls)) (hm : m ∈ ls) :
    l.span.stop.offset < m.span.stop.offset :=
  Nat.lt_of_le_of_lt ((List.pairwise_cons.mp h.ordered).1 m hm)
    (h.proper m (List.mem_cons_of_mem l hm))

end Leaf

/-- The leaves of a source. -/
def Source.leaves (source : Source) : List Leaf :=
  Leaf.ofTokens source.tokens

/-- The leaves of a source have the tokens that the reader is given. -/
theorem Source.map_token_leaves (source : Source) :
    source.leaves.map Leaf.token = source.tokens.filter (!·.kind.isTrivia) :=
  Leaf.map_token_ofTokens source.tokens

/-! ### Placed leaves -/

theorem Text.byteLength_pos {cs : List Char} (h : cs ≠ []) : 0 < Text.byteLength cs := by
  obtain ⟨c, cs, rfl⟩ := List.exists_cons_of_ne_nil h
  rw [Text.byteLength_cons]
  have := c.utf8Size_pos
  omega

namespace Position

theorem offset_advance (p : Position) (l : Lexeme) :
    (p.advance l).offset = p.offset + Text.byteLength l.text := by
  unfold advance
  split <;> rfl

/-- Only a line end leads to the next line. -/
theorem line_advance_of_newline (p : Position) {l : Lexeme} (h : l.kind = .newline) :
    (p.advance l).line = p.line + 1 := by
  simp [advance, h]

theorem line_advance_of_ne (p : Position) {l : Lexeme} (h : l.kind ≠ .newline) :
    (p.advance l).line = p.line := by
  unfold advance
  split
  · contradiction
  · rfl

/-- No leaf reaches over a line. -/
theorem line_advance_of_not_isTrivia (p : Position) {l : Lexeme} (h : l.kind.isTrivia = false) :
    (p.advance l).line = p.line := by
  refine p.line_advance_of_ne fun hkind => ?_
  rw [hkind] at h
  cases h

end Position

namespace Leaf

variable {file : String} {p : Position} {ls : List Lexeme}

/-- The leaves of lexemes that are placed one behind the other. -/
abbrev placed (file : String) (p : Position) (ls : List Lexeme) : List Leaf :=
  ofTokens (Token.place file p ls)

/-- Trivia moves the place where the next leaf stands, and nothing else. -/
theorem placed_cons_of_isTrivia {l : Lexeme} (h : l.kind.isTrivia = true) :
    placed file p (l :: ls) = placed file (p.advance l) ls := by
  rw [placed, Token.place_cons, ofTokens_cons, if_pos h]

/-- A lexeme that is no trivia becomes a leaf where it is placed. -/
theorem placed_cons_of_not_isTrivia {l : Lexeme} (h : l.kind.isTrivia = false) :
    placed file p (l :: ls) =
      ⟨⟨l.kind, l.text, file, p, p.advance l⟩, TokenKind.breaksFirst (ls.map (·.kind))⟩
        :: placed file (p.advance l) ls := by
  rw [placed, Token.place_cons, ofTokens_cons, if_neg (by simp [h]), Token.map_kind_place]

/-- All leaves stand behind the place where the placing began. -/
theorem offset_le_of_mem_placed {l : Leaf} (h : l ∈ placed file p ls) :
    p.offset ≤ l.span.start.offset := by
  induction ls generalizing p with
  | nil => simp [placed, ofTokens] at h
  | cons m ls ih =>
    have hstep := p.offset_advance m
    -- the offset grows with each lexeme, whether or not it becomes a leaf
    by_cases hm : m.kind.isTrivia = true
    · rw [placed_cons_of_isTrivia hm] at h
      have := ih h
      omega
    · rw [placed_cons_of_not_isTrivia (by simpa using hm), List.mem_cons] at h
      rcases h with rfl | h
      · exact Nat.le_refl _
      · have := ih h
        omega

/-- The first leaf stands on a later line exactly if a line ends in front of it. -/
theorem breaksFirst_iff {l : Leaf} (h : l ∈ (placed file p ls).head?) :
    p.line ≤ l.span.start.line ∧
      (TokenKind.breaksFirst (ls.map (·.kind)) = true ↔ p.line < l.span.start.line) := by
  induction ls generalizing p with
  | nil => simp [placed, ofTokens] at h
  | cons m ls ih =>
    by_cases hm : m.kind.isTrivia = true
    · rw [placed_cons_of_isTrivia hm] at h
      obtain ⟨hle, hiff⟩ := ih h
      -- a line break makes both sides true, and other trivia stays in the line
      by_cases hnew : m.kind = .newline
      · rw [p.line_advance_of_newline hnew] at hle
        have hbreak : TokenKind.breaksFirst ((m :: ls).map (·.kind)) = true := by
          rw [List.map_cons, hnew]
          rfl
        exact ⟨by omega, fun _ => by omega, fun _ => hbreak⟩
      · rw [p.line_advance_of_ne hnew] at hle hiff
        refine ⟨hle, ?_⟩
        rw [← hiff]
        simp [TokenKind.breaksFirst_cons, hm, hnew]
    · rw [placed_cons_of_not_isTrivia (by simpa using hm)] at h
      cases h
      refine ⟨Nat.le_refl _, ?_⟩
      simp [TokenKind.breaksFirst_cons, hm]

/-- **Placed leaves stand one behind the other**, if no lexeme is empty. -/
theorem lined_placed (h : ∀ l ∈ ls, l.text ≠ []) : Lined (placed file p ls) := by
  induction ls generalizing p with
  | nil => exact ⟨by simp [placed, ofTokens], .nil, .nil⟩
  | cons m ls ih =>
    have hrest : Lined (placed file (p.advance m) ls) :=
      ih fun l hl => h l (List.mem_cons_of_mem m hl)
    by_cases hm : m.kind.isTrivia = true
    · rwa [placed_cons_of_isTrivia hm]
    · have hm : m.kind.isTrivia = false := by simpa using hm
      rw [placed_cons_of_not_isTrivia hm]
      -- the new leaf has a text, and everything behind it is placed where it ends
      refine ⟨fun l hl => ?_, ?_, ?_⟩
      · rcases List.mem_cons.mp hl with rfl | hl
        · have := Text.byteLength_pos (h m List.mem_cons_self)
          have := p.offset_advance m
          change p.offset < (p.advance m).offset
          omega
        · exact hrest.proper l hl
      · exact List.pairwise_cons.mpr ⟨fun l hl => offset_le_of_mem_placed hl, hrest.ordered⟩
      · -- only the next leaf counts, and that is the first of the rest
        refine List.isChain_cons.mpr ⟨fun l hl => ?_, hrest.lines⟩
        exact (breaksFirst_iff hl).2

end Leaf

/-- The leaves of a source stand one behind the other, and a line that ends between two of them can
be told from their lines. -/
theorem Source.lined_leaves (source : Source) : Leaf.Lined source.leaves :=
  Leaf.lined_placed fun _ hl => (Lexeme.tiled_scan source.text).1.text_ne_nil_of_mem hl

end MatchCheck
