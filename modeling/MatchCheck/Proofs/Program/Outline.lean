import MatchCheck.Proofs.Program.Leaf
import MatchCheck.Proofs.Program.Spans

/-!
# Outlines

The outline of a text is what its program depends on: the leaves without their places, and of the
line ends only those behind a name or a closing parenthesis, which may divide two constructors
(`Leaf.strip`). It is the form in which two texts can be compared whose leaves stand at different
places.

Outlines are made piece by piece. Behind a text that ends with punctuation or with trivia other than
a comment, and whose last leaf is no name and no closing parenthesis, every text has the outline
that it has alone (`Lexeme.outline_scan_append`).
-/

namespace MatchCheck

/-- The kinds of leaves that can be the last of a constructor. -/
def TokenKind.endsCtor (k : TokenKind) : Bool :=
  k == .ident || k == .rightParen

/-- A leaf at another place, without the end of a line where none can matter. -/
def Leaf.move (g : Span → Span) (l : Leaf) : Leaf :=
  ⟨⟨l.kind, l.token.text, g l.span⟩, l.kind.endsCtor && l.lastInLine⟩

/-- A leaf without its place, and without the end of a line where none can matter. -/
abbrev Leaf.strip : Leaf → Leaf :=
  Leaf.move .forget

namespace Lexeme

/-- The outline of lexemes. -/
def outline : List Lexeme → List Leaf
  | [] => []
  | l :: ls =>
    if l.kind.isTrivia then outline ls
    else
      ⟨⟨l.kind, l.text, default⟩, l.kind.endsCtor && TokenKind.breaksFirst (ls.map (·.kind))⟩
        :: outline ls

variable {xs ys : List Lexeme} {l m n : Lexeme}

theorem outline_cons_of_isTrivia (h : l.kind.isTrivia = true) : outline (l :: xs) = outline xs := by
  rw [outline, if_pos h]

theorem outline_cons_of_not_isTrivia (h : l.kind.isTrivia = false) :
    outline (l :: xs) =
      ⟨⟨l.kind, l.text, default⟩, l.kind.endsCtor && TokenKind.breaksFirst (xs.map (·.kind))⟩
        :: outline xs := by
  rw [outline, if_neg (by simp [h])]

/-- Wherever lexemes are placed, their leaves have the same outline. -/
theorem map_strip_placed (file : String) (p : Position) (ls : List Lexeme) :
    (Leaf.placed file p ls).map Leaf.strip = outline ls := by
  -- from any position, since outlines have none
  induction ls generalizing p with
  | nil => rfl
  | cons l ls ih =>
    by_cases h : l.kind.isTrivia = true
    · rw [Leaf.placed_cons_of_isTrivia h, outline_cons_of_isTrivia h, ih]
    · have h : l.kind.isTrivia = false := by simpa using h
      rw [Leaf.placed_cons_of_not_isTrivia h, outline_cons_of_not_isTrivia h, List.map_cons, ih]
      rfl

/-- Every name and every closing parenthesis has another leaf behind it. -/
def Delimited : List Lexeme → Prop
  | [] => True
  | l :: ls => (l.kind.endsCtor = true → ∃ m ∈ ls, m.kind.isTrivia = false) ∧ Delimited ls

/-- Behind delimited lexemes other lexemes have the outline that they have alone. -/
theorem outline_append (h : Delimited xs) : outline (xs ++ ys) = outline xs ++ outline ys := by
  induction xs with
  | nil => rfl
  | cons x xs ih =>
    obtain ⟨hx, hxs⟩ := h
    rw [List.cons_append]
    by_cases htrivia : x.kind.isTrivia = true
    · rw [outline_cons_of_isTrivia htrivia, outline_cons_of_isTrivia htrivia, ih hxs]
    · have htrivia : x.kind.isTrivia = false := by simpa using htrivia
      -- a leaf that may end a constructor looks for the next line break, and finds it in its own
      -- part
      rw [outline_cons_of_not_isTrivia htrivia, outline_cons_of_not_isTrivia htrivia, ih hxs]
      cases hends : x.kind.endsCtor with
      | false => simp
      | true =>
        obtain ⟨m, hm, hleaf⟩ := hx hends
        rw [List.map_append, TokenKind.breaksFirst_append ⟨m.kind, List.mem_map_of_mem hm, hleaf⟩,
          List.cons_append]

/-- Two pieces of trivia of one kind count as one. -/
theorem outline_fuse (hm : m.kind = l.kind) (hn : n.kind = l.kind) (h : l.kind.isTrivia = true) :
    outline (xs ++ n :: ys) = outline (xs ++ l :: m :: ys) := by
  induction xs with
  | nil =>
    rw [List.nil_append, List.nil_append, outline_cons_of_isTrivia (hn ▸ h),
      outline_cons_of_isTrivia h, outline_cons_of_isTrivia (hm ▸ h)]
  | cons x xs ih =>
    rw [List.cons_append, List.cons_append]
    by_cases htrivia : x.kind.isTrivia = true
    · rw [outline_cons_of_isTrivia htrivia, outline_cons_of_isTrivia htrivia, ih]
    · have htrivia : x.kind.isTrivia = false := by simpa using htrivia
      rw [outline_cons_of_not_isTrivia htrivia, outline_cons_of_not_isTrivia htrivia, ih]
      -- a leaf in front looks over trivia for a line break, and both lists have the same kinds but
      -- for a repeated one
      simp only [List.map_append, List.map_cons, hm, hn, TokenKind.breaksFirst_fuse]

/-- Lexemes behind which every text is read as if it stood alone. -/
structure Closed (xs : List Lexeme) : Prop where
  tiled : Tiled xs
  delimited : Delimited xs
  isSealed : ∀ l ∈ xs.getLast?, l.isSealed = true

/-- **Joining.** Behind closed lexemes every text has the outline that it has alone. -/
theorem outline_scan_append (h : Closed xs) (cs : List Char) :
    outline (scan (texts xs ++ cs)) = outline xs ++ outline (scan cs) := by
  rcases List.eq_nil_or_concat' xs with rfl | ⟨zs, l, rfl⟩
  · rfl
  · have hl : l.isSealed = true := h.isSealed l (by simp)
    -- the next text begins a lexeme of its own, or trivia of the same kind, which goes on
    rcases scan_append h.tiled hl cs with hscan | ⟨m, n, ys, hcs, hm, hn, htrivia, hscan⟩
    · rw [hscan, ← outline_append h.delimited, List.append_assoc]
      rfl
    · rw [hscan, outline_fuse hm hn htrivia, hcs, ← outline_append h.delimited, List.append_assoc]
      rfl

end Lexeme

theorem Source.map_strip_leaves (source : Source) :
    source.leaves.map Leaf.strip = Lexeme.outline (Lexeme.scan source.text) :=
  Lexeme.map_strip_placed source.path .first (Lexeme.scan source.text)

end MatchCheck
