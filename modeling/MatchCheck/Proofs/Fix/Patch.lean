import MatchCheck.Proofs.Fix.Splice
import MatchCheck.Proofs.Program.Outline
import MatchCheck.Proofs.Token.Place

/-!
# Patches

A patch goes through the leaves of a text and says of each stretch of them whether it is kept,
dropped, or kept with a text inserted in front of it. Every stretch ends with a brace or a comma, so
that nothing on its two sides can grow together. A patch says which leaves it is about, which edits
it makes, and which outline it leaves (`Piece.before`, `Piece.edits`, `Piece.after`).

The main statement is that the edits of a patch, made at once, leave a text with the outline that
the patch says (`exists_spliced`).
-/

namespace MatchCheck

/-- Braces and the comma. -/
def TokenKind.isDelimiter (k : TokenKind) : Bool :=
  k == .leftBrace || k == .rightBrace || k == .comma

/-! ### Leaves and lexemes -/

namespace Leaf

variable {file : String} {p : Position} {xs ys : List Lexeme} {y : Lexeme}

/-- There are no leaves exactly if there is only trivia. -/
theorem placed_eq_nil_iff : placed file p xs = [] ↔ ∀ x ∈ xs, x.kind.isTrivia = true := by
  -- lexeme by lexeme, since trivia alone leaves no leaf
  induction xs generalizing p with
  | nil => simp [placed, ofTokens]
  | cons x xs ih =>
    by_cases hx : x.kind.isTrivia = true
    · rw [placed_cons_of_isTrivia hx, ih]
      simp [hx]
    · rw [placed_cons_of_not_isTrivia (by simpa using hx)]
      simp [hx]

/-- In front of a leaf the leaves can be cut: whether a line ends there is seen on either side. -/
theorem placed_append (hy : y.kind.isTrivia = false) :
    placed file p (xs ++ y :: ys) =
      placed file p xs ++ placed file (p.through xs) (y :: ys) := by
  induction xs generalizing p with
  | nil => rfl
  | cons x xs ih =>
    rw [List.cons_append]
    by_cases hx : x.kind.isTrivia = true
    · rw [placed_cons_of_isTrivia hx, placed_cons_of_isTrivia hx, ih]
      rfl
    · have hx : x.kind.isTrivia = false := by simpa using hx
      -- what the leaf sees behind it ends with the next leaf, which is still there
      rw [placed_cons_of_not_isTrivia hx, placed_cons_of_not_isTrivia hx, ih, List.map_append,
        List.map_cons, TokenKind.breaksFirst_append_cons hy]
      rfl

/-- Where the leaves are cut, the lexemes can be cut, in front of the leaf with which the second
part begins. -/
theorem exists_split {ls : List Lexeme} {A B : List Leaf} (h : placed file p ls = A ++ B)
    (hB : B ≠ []) :
    ∃ xs y ys, ls = xs ++ y :: ys ∧ y.kind.isTrivia = false ∧ placed file p xs = A ∧
      placed file (p.through xs) (y :: ys) = B := by
  induction ls generalizing p A with
  | nil => exact absurd (List.append_eq_nil_iff.mp h.symm).2 hB
  | cons l ls ih =>
    -- trivia is passed over and falls to the first part
    by_cases hl : l.kind.isTrivia = true
    · rw [placed_cons_of_isTrivia hl] at h
      obtain ⟨xs, y, ys, rfl, hy, hA, hB⟩ := ih h
      exact ⟨l :: xs, y, ys, rfl, hy, by rw [placed_cons_of_isTrivia hl, hA], hB⟩
    · have hl : l.kind.isTrivia = false := by simpa using hl
      cases A with
      | nil => exact ⟨[], l, ls, rfl, hl, rfl, h⟩
      | cons a A =>
        rw [placed_cons_of_not_isTrivia hl] at h
        obtain ⟨rfl, hrest⟩ := List.cons.inj h
        obtain ⟨xs, y, ys, rfl, hy, hA, hB⟩ := ih hrest
        refine ⟨l :: xs, y, ys, rfl, hy, ?_, hB⟩
        rw [placed_cons_of_not_isTrivia hl, hA, List.map_append, List.map_cons,
          TokenKind.breaksFirst_append_cons hy]

/-- The last leaf ends where only trivia is left. -/
theorem exists_split_last {A : List Leaf} {last : Leaf} (h : placed file p xs = A ++ [last]) :
    ∃ mid post, xs = mid ++ post ∧ (∀ x ∈ post, x.kind.isTrivia = true) ∧
      last.span.stop.offset = p.offset + Text.byteLength (Lexeme.texts mid) := by
  -- on the lexemes: those up to the last one that is no trivia are what the leaves take up
  induction xs generalizing p A with
  | nil => cases A <;> cases h
  | cons x xs ih =>
    by_cases hx : x.kind.isTrivia = true
    · rw [placed_cons_of_isTrivia hx] at h
      obtain ⟨mid, post, rfl, hpost, hstop⟩ := ih h
      refine ⟨x :: mid, post, rfl, hpost, ?_⟩
      rw [hstop, p.offset_advance, Lexeme.texts_cons, Text.byteLength_append, Nat.add_assoc]
    · rw [placed_cons_of_not_isTrivia (by simpa using hx)] at h
      cases A with
      | nil =>
        obtain ⟨rfl, hrest⟩ := List.cons.inj h
        refine ⟨[x], xs, rfl, placed_eq_nil_iff.mp hrest, ?_⟩
        rw [Lexeme.texts_cons, Lexeme.texts_nil, List.append_nil]
        exact p.offset_advance x
      | cons a A =>
        obtain ⟨mid, post, rfl, hpost, hstop⟩ := ih (List.cons.inj h).2
        refine ⟨x :: mid, post, rfl, hpost, ?_⟩
        rw [hstop, p.offset_advance, Lexeme.texts_cons, Text.byteLength_append, Nat.add_assoc]

end Leaf

namespace Lexeme

variable {file : String} {p : Position} {xs ys : List Lexeme} {y : Lexeme}

/-- Trivia asks nothing of what follows. -/
theorem delimited_of_trivia (h : ∀ x ∈ xs, x.kind.isTrivia = true) : Delimited xs := by
  induction xs with
  | nil => trivial
  | cons x xs ih =>
    refine ⟨fun hends => ?_, ih fun l hl => h l (List.mem_cons_of_mem x hl)⟩
    have hx := h x List.mem_cons_self
    revert hends hx
    cases x.kind <;> simp [TokenKind.endsCtor, TokenKind.isTrivia]

/-- Lexemes whose last leaf does not end a constructor ask nothing of what follows. -/
theorem delimited_of_placed {A : List Leaf} {last : Leaf}
    (h : Leaf.placed file p xs = A ++ [last]) (hlast : last.kind.endsCtor = false) :
    Delimited xs := by
  -- on the lexemes, since each asks for a leaf behind it
  induction xs generalizing p A with
  | nil => trivial
  | cons x xs ih =>
    by_cases hx : x.kind.isTrivia = true
    · rw [Leaf.placed_cons_of_isTrivia hx] at h
      refine ⟨fun hends => ?_, ih h⟩
      revert hends hx
      cases x.kind <;> simp [TokenKind.endsCtor, TokenKind.isTrivia]
    · rw [Leaf.placed_cons_of_not_isTrivia (by simpa using hx)] at h
      cases A with
      | nil =>
        obtain ⟨rfl, hrest⟩ := List.cons.inj h
        refine ⟨fun hends => ?_, delimited_of_trivia (Leaf.placed_eq_nil_iff.mp hrest)⟩
        exact absurd hends (by simpa using hlast)
      | cons a A =>
        have hrest := (List.cons.inj h).2
        refine ⟨fun _ => ?_, ih hrest⟩
        -- `last` is still to come, so not everything behind is trivia
        by_contra hnone
        push Not at hnone
        rw [Leaf.placed_eq_nil_iff.mpr fun l hl => by simpa using hnone l hl] at hrest
        simp at hrest

theorem endsCtor_eq_false_of_isDelimiter {k : TokenKind} (h : k.isDelimiter = true) :
    k.endsCtor = false := by
  revert h
  cases k <;> decide

/-- In front of a leaf, the last lexeme is sealed if the last leaf is a delimiter. -/
theorem isSealed_of_placed (h : Tiled (xs ++ y :: ys)) (hy : y.kind.isTrivia = false)
    (hlast : ∀ l ∈ (Leaf.placed file p xs).getLast?, l.kind.isDelimiter = true) :
    ∀ l ∈ xs.getLast?, l.isSealed = true := by
  intro l hl
  obtain ⟨zs, rfl⟩ := List.getLast?_eq_some_iff.mp hl
  cases htrivia : l.kind.isTrivia with
  | true =>
    -- a comment runs to the end of its line, and what stands there is no leaf
    have hne : l.kind ≠ .lineComment := by
      intro hcomment
      rw [List.append_assoc] at h
      have hnewline := h.right.kind_eq_newline_of_lineComment hcomment
      rw [hnewline] at hy
      cases hy
    revert htrivia hne
    unfold isSealed
    cases l.kind <;> decide
  | false =>
    have hdelimiter : l.kind.isDelimiter = true := by
      rw [Leaf.placed_append htrivia, Leaf.placed_cons_of_not_isTrivia htrivia,
        List.getLast?_append] at hlast
      exact hlast _ rfl
    revert hdelimiter
    unfold isSealed
    cases l.kind <;> decide

/-- Lexemes in front of a leaf are closed if their last leaf is a delimiter. -/
theorem closed_of_placed (h : Tiled (xs ++ y :: ys)) (hy : y.kind.isTrivia = false)
    (hlast : ∀ l ∈ (Leaf.placed file p xs).getLast?, l.kind.isDelimiter = true) : Closed xs := by
  refine ⟨h.left, ?_, isSealed_of_placed h hy hlast⟩
  rcases List.eq_nil_or_concat' (Leaf.placed file p xs) with hnil | ⟨A, last, hconcat⟩
  · exact delimited_of_trivia (Leaf.placed_eq_nil_iff.mp hnil)
  · refine delimited_of_placed hconcat (endsCtor_eq_false_of_isDelimiter (hlast last ?_))
    simp [hconcat]

theorem outline_of_trivia (h : ∀ x ∈ xs, x.kind.isTrivia = true) : outline xs = [] := by
  rw [← map_strip_placed "" default xs, Leaf.placed_eq_nil_iff.mpr h]
  rfl

/-- Lexemes whose last leaf is a delimiter keep their outline in front of a leaf, whatever becomes
of the text from there on, and at the end. -/
theorem outline_scan_keep {text : List Char} (h : Tiled (xs ++ ys))
    (hlast : ∀ l ∈ (Leaf.placed file p xs).getLast?, l.kind.isDelimiter = true)
    (hys : (ys = [] ∧ text = []) ∨ ∃ y zs, ys = y :: zs ∧ y.kind.isTrivia = false) :
    outline (scan (texts xs ++ text)) = outline xs ++ outline (scan text) := by
  rcases hys with ⟨rfl, rfl⟩ | ⟨y, zs, rfl, hy⟩
  · rw [List.append_nil, scan_texts h.left, scan_nil, outline, List.append_nil]
  · exact outline_scan_append (closed_of_placed h hy hlast) text

end Lexeme

/-! ### Pieces -/

/-- What happens to a stretch of leaves. -/
inductive Piece where
  /-- The leaves stay. -/
  | keep (leaves : List Leaf)
  /-- The leaves are removed by an edit. -/
  | drop (leaves : List Leaf) (edit : Edit)
  /-- The leaf stays, and an edit puts a text in front of it. -/
  | insert (edit : Edit) (leaf : Leaf)

namespace Piece

/-- The leaves that a piece is about. -/
def before : Piece → List Leaf
  | keep leaves => leaves
  | drop leaves _ => leaves
  | insert _ leaf => [leaf]

/-- The outline that a piece leaves. -/
def after : Piece → List Leaf
  | keep leaves => leaves.map Leaf.strip
  | drop _ _ => []
  | insert edit leaf => Lexeme.outline (Lexeme.scan edit.replacement.toList) ++ [leaf.strip]

/-- The edits that a piece makes. -/
def edits : Piece → List Edit
  | keep _ => []
  | drop _ edit => [edit]
  | insert edit _ => [edit]

/-- The edit of a piece is about its leaves. -/
def EditFits : Piece → Prop
  | keep _ => True
  | drop leaves edit => edit.replacement = "" ∧
      (∀ l ∈ leaves.head?, edit.span.start.offset = l.span.start.offset) ∧
      ∀ l ∈ leaves.getLast?, edit.span.stop.offset = l.span.stop.offset
  | insert edit leaf => edit.span.start.offset = leaf.span.start.offset ∧
      edit.span.stop.offset = leaf.span.start.offset ∧
      Lexeme.Closed (Lexeme.scan edit.replacement.toList)

@[simp] theorem before_keep (leaves : List Leaf) : (keep leaves).before = leaves := rfl

@[simp] theorem before_drop (leaves : List Leaf) (edit : Edit) :
    (drop leaves edit).before = leaves := rfl

@[simp] theorem after_keep (leaves : List Leaf) : (keep leaves).after = leaves.map Leaf.strip := rfl

@[simp] theorem after_drop (leaves : List Leaf) (edit : Edit) : (drop leaves edit).after = [] := rfl

@[simp] theorem edits_keep (leaves : List Leaf) : (keep leaves).edits = [] := rfl

@[simp] theorem edits_drop (leaves : List Leaf) (edit : Edit) :
    (drop leaves edit).edits = [edit] := rfl

/-- A piece has leaves, the last of which is a delimiter, and its edit is about them. -/
structure Fits (x : Piece) : Prop where
  before_ne_nil : x.before ≠ []
  delimited : ∀ l ∈ x.before.getLast?, l.kind.isDelimiter = true
  editFits : x.EditFits

variable {file : String} {p : Position} {ls rest : List Lexeme}

/-- What one piece does in front of the others: its edits come first, and so does its outline. -/
def Carries (x : Piece) (p : Position) (ls rest : List Lexeme) : Prop :=
  ∀ {es : List Edit} {text : List Char},
    Spliced (p.through ls).offset es (Lexeme.texts rest) text →
    ((rest = [] ∧ text = []) ∨ ∃ y ys, rest = y :: ys ∧ y.kind.isTrivia = false) →
    ∃ text', Spliced p.offset (x.edits ++ es) (Lexeme.texts ls ++ Lexeme.texts rest) text' ∧
      Lexeme.outline (Lexeme.scan text') = x.after ++ Lexeme.outline (Lexeme.scan text)

/-- A piece that stays keeps its text. -/
theorem carries_keep {leaves : List Leaf} (htiled : Lexeme.Tiled (ls ++ rest))
    (h : (keep leaves).Fits) (hleaves : Leaf.placed file p ls = leaves) :
    (keep leaves).Carries p ls rest := by
  intro es text hspliced hrest
  rw [p.offset_through] at hspliced
  refine ⟨Lexeme.texts ls ++ text, hspliced.keep _, ?_⟩
  -- the last leaf is a delimiter, so that nothing behind it can join it
  have hlast : ∀ l ∈ (Leaf.placed file p ls).getLast?, l.kind.isDelimiter = true := by
    rw [hleaves]
    exact h.delimited
  rw [Lexeme.outline_scan_keep htiled hlast hrest, ← Lexeme.map_strip_placed file p ls, hleaves]
  rfl

/-- In front of the first leaf stands only trivia, which keeps everything apart. -/
theorem exists_front (htiled : Lexeme.Tiled (ls ++ rest)) {leaf : Leaf} {leaves : List Leaf}
    (hleaves : Leaf.placed file p ls = leaf :: leaves) :
    ∃ pre back, ls = pre ++ back ∧ Leaf.placed file (p.through pre) back = leaf :: leaves ∧
      leaf.span.start.offset = p.offset + Text.byteLength (Lexeme.texts pre) ∧
      ∀ text, Lexeme.outline (Lexeme.scan (Lexeme.texts pre ++ text)) =
        Lexeme.outline (Lexeme.scan text) := by
  obtain ⟨pre, y, ys, rfl, hy, hpre, hback⟩ :=
    Leaf.exists_split (A := []) hleaves (List.cons_ne_nil _ _)
  refine ⟨pre, y :: ys, rfl, hback, ?_, fun text => ?_⟩
  · rw [Leaf.placed_cons_of_not_isTrivia hy] at hback
    obtain ⟨rfl, -⟩ := List.cons.inj hback
    exact p.offset_through pre
  · rw [List.append_assoc] at htiled
    -- nothing stands in front of the trivia that it could run into
    have hlast : ∀ l ∈ (Leaf.placed file p pre).getLast?, l.kind.isDelimiter = true := by
      rw [hpre]
      nofun
    rw [Lexeme.outline_scan_keep htiled hlast (.inr ⟨y, ys ++ rest, rfl, hy⟩),
      Lexeme.outline_of_trivia (Leaf.placed_eq_nil_iff.mp hpre), List.nil_append]

/-- A piece that is inserted before keeps its text behind the new one. -/
theorem carries_insert {edit : Edit} {leaf : Leaf} (htiled : Lexeme.Tiled (ls ++ rest))
    (h : (insert edit leaf).Fits) (hleaves : Leaf.placed file p ls = [leaf]) :
    (insert edit leaf).Carries p ls rest := by
  intro es text hspliced hrest
  obtain ⟨hstart, hstop, hclosed⟩ := h.editFits
  obtain ⟨pre, back, rfl, hback, hoffset, houtline⟩ := exists_front htiled hleaves
  rw [List.append_assoc] at htiled
  -- the leaf itself stays behind the edit, so the later edits start from the same offset
  have hbehind : Spliced edit.span.stop.offset es (Lexeme.texts back ++ Lexeme.texts rest)
      (Lexeme.texts back ++ text) := by
    refine Spliced.keep _ ?_
    convert hspliced using 1
    rw [p.offset_through, Lexeme.texts_append, Text.byteLength_append, hstop, hoffset]
    omega
  refine ⟨Lexeme.texts pre ++ (edit.replacement.toList ++ (Lexeme.texts back ++ text)), ?_, ?_⟩
  · rw [Lexeme.texts_append, List.append_assoc, ← List.nil_append (Lexeme.texts back ++ _)]
    exact .edit (hstart.trans hoffset) (hstop.trans hstart.symm) hbehind
  · have hlast : ∀ l ∈ (Leaf.placed file (p.through pre) back).getLast?,
        l.kind.isDelimiter = true := by
      rw [hback]
      exact h.delimited
    have hinsert := Lexeme.outline_scan_append hclosed (Lexeme.texts back ++ text)
    rw [(Lexeme.tiled_scan _).2] at hinsert
    rw [houtline, hinsert, Lexeme.outline_scan_keep htiled.right hlast hrest,
      ← Lexeme.map_strip_placed file (p.through pre) back, hback]
    simp [after]

/-- **A piece that is removed leaves only the trivia around it.** -/
theorem carries_drop {leaves : List Leaf} {edit : Edit} (htiled : Lexeme.Tiled (ls ++ rest))
    (h : (drop leaves edit).Fits) (hleaves : Leaf.placed file p ls = leaves) :
    (drop leaves edit).Carries p ls rest := by
  intro es text hspliced hrest
  obtain ⟨hempty, hstart, hstop⟩ := h.editFits
  obtain ⟨first, others, rfl⟩ := List.exists_cons_of_ne_nil h.before_ne_nil
  obtain ⟨pre, back, rfl, hback, hoffset, houtline⟩ := exists_front htiled hleaves
  -- behind the last leaf too stands only trivia
  obtain ⟨front, last, hlast⟩ := (List.eq_nil_or_concat' (first :: others)).resolve_left nofun
  rw [hlast] at hback hstop
  obtain ⟨mid, post, rfl, hpost, hend⟩ := Leaf.exists_split_last hback
  rw [List.append_assoc, List.append_assoc] at htiled
  have hstart := (hstart first rfl).trans hoffset
  have hstop : edit.span.stop.offset =
      edit.span.start.offset + Text.byteLength (Lexeme.texts mid) := by
    rw [hstop last (by simp), hend, hstart, p.offset_through]
  have hbehind : Spliced edit.span.stop.offset es (Lexeme.texts post ++ Lexeme.texts rest)
      (Lexeme.texts post ++ text) := by
    refine Spliced.keep _ ?_
    convert hspliced using 1
    simp only [p.offset_through, Lexeme.texts_append, Text.byteLength_append, hstop, hstart]
    omega
  refine ⟨Lexeme.texts pre ++ (edit.replacement.toList ++ (Lexeme.texts post ++ text)), ?_, ?_⟩
  · simp only [Lexeme.texts_append, List.append_assoc]
    exact .edit hstart hstop hbehind
  · have hnone : ∀ l ∈ (Leaf.placed file p post).getLast?, l.kind.isDelimiter = true := by
      rw [Leaf.placed_eq_nil_iff.mpr hpost]
      nofun
    rw [houtline, hempty]
    exact (Lexeme.outline_scan_keep htiled.right.right hnone hrest).trans
      (by rw [Lexeme.outline_of_trivia hpost, after])

/-- Whatever happens to a piece, its outline comes first and the others follow. -/
theorem carries {x : Piece} (htiled : Lexeme.Tiled (ls ++ rest)) (h : x.Fits)
    (hleaves : Leaf.placed file p ls = x.before) : x.Carries p ls rest := by
  cases x with
  | keep leaves => exact carries_keep htiled h hleaves
  | drop leaves edit => exact carries_drop htiled h hleaves
  | insert edit leaf => exact carries_insert htiled h hleaves

end Piece

/-- **Patches.** The edits of a patch leave a text with the outline that the patch says. -/
theorem exists_spliced {file : String} {p : Position} {ls : List Lexeme} {xs : List Piece}
    (htiled : Lexeme.Tiled ls) (hfits : ∀ x ∈ xs, x.Fits)
    (hbefore : Leaf.placed file p ls = xs.flatMap Piece.before) :
    ∃ text, Spliced p.offset (xs.flatMap Piece.edits) (Lexeme.texts ls) text ∧
      Lexeme.outline (Lexeme.scan text) = xs.flatMap Piece.after := by
  -- piece by piece, each with the lexemes up to the first leaf of the next
  induction xs generalizing p ls with
  | nil =>
    refine ⟨Lexeme.texts ls, .done _ _, ?_⟩
    rw [Lexeme.scan_texts htiled]
    exact Lexeme.outline_of_trivia (Leaf.placed_eq_nil_iff.mp hbefore)
  | cons x xs ih =>
    have hx := hfits x List.mem_cons_self
    have hxs := fun z hz => hfits z (List.mem_cons_of_mem x hz)
    cases xs with
    | nil =>
      -- the trivia at the end of the text belongs to the last piece
      rw [List.flatMap_singleton] at hbefore
      rw [← List.append_nil ls] at htiled
      have hdone : Spliced (p.through ls).offset [] (Lexeme.texts []) [] := .done _ _
      simpa [Lexeme.scan_nil, Lexeme.outline] using
        Piece.carries htiled hx hbefore hdone (.inl ⟨rfl, rfl⟩)
    | cons z zs =>
      have hne : (z :: zs).flatMap Piece.before ≠ [] := by
        simp [(hxs z List.mem_cons_self).before_ne_nil]
      obtain ⟨front, y, ys, rfl, hy, hfront, hback⟩ := Leaf.exists_split hbefore hne
      obtain ⟨text, hspliced, houtline⟩ := ih htiled.right hxs hback
      obtain ⟨text', hspliced', houtline'⟩ :=
        Piece.carries htiled hx hfront hspliced (.inr ⟨y, ys, rfl, hy⟩)
      rw [← Lexeme.texts_append] at hspliced'
      exact ⟨text', hspliced', by rw [houtline', houtline]; rfl⟩

/-! ### Findings -/

/-- An edit of a piece begins where one of its leaves begins. -/
theorem Piece.edits_starts_sublist {x : Piece} (h : x.Fits) :
    List.Sublist (x.edits.map fun e => e.span.start.offset)
      (x.before.map fun l => l.span.start.offset) := by
  cases x with
  | keep leaves => exact List.nil_sublist _
  | drop leaves edit =>
    obtain ⟨first, others, rfl⟩ := List.exists_cons_of_ne_nil h.before_ne_nil
    simp [before, edits, h.editFits.2.1 first rfl]
  | insert edit leaf => simp [before, edits, h.editFits.1]

/-- The edits of a patch begin one behind the other, as its leaves do. -/
theorem ascending_edits {xs : List Piece} (hfits : ∀ x ∈ xs, x.Fits)
    (hlined : Leaf.Lined (xs.flatMap Piece.before)) : Edit.Ascending (xs.flatMap Piece.edits) := by
  have hleaves : ((xs.flatMap Piece.before).map fun l => l.span.start.offset).Pairwise (· < ·) :=
    List.pairwise_map.mpr hlined.ascending
  have hsublist : List.Sublist ((xs.flatMap Piece.edits).map fun e => e.span.start.offset)
      ((xs.flatMap Piece.before).map fun l => l.span.start.offset) := by
    -- each piece begins its edits at starts of its own leaves
    clear hlined hleaves
    induction xs with
    | nil => exact List.nil_sublist _
    | cons x xs ih =>
      simp only [List.flatMap_cons, List.map_append]
      exact (Piece.edits_starts_sublist (hfits x List.mem_cons_self)).append
        (ih fun z hz => hfits z (List.mem_cons_of_mem x hz))
  exact List.pairwise_map.mp (hleaves.sublist hsublist)

/-- **Fixed texts.** Findings that suggest the edits of a patch of the whole source turn its text
into one with the outline that the patch says. -/
theorem Source.outline_ofFindings {source : Source} {ds : List Diagnostic}
    {only? : Option (List String)} {xs : List Piece} (hfits : ∀ x ∈ xs, x.Fits)
    (hbefore : source.leaves = xs.flatMap Piece.before)
    (hperm : (Fixed.edits only? ds).Perm (xs.flatMap Piece.edits)) :
    Lexeme.outline (Lexeme.scan (Fixed.ofFindings source.text ds only?).text) =
      xs.flatMap Piece.after := by
  obtain ⟨htiled, htexts⟩ := Lexeme.tiled_scan source.text
  obtain ⟨text, hspliced, houtline⟩ := exists_spliced htiled hfits hbefore
  rw [htexts] at hspliced
  -- the edits are in the order of their pieces, whatever order they are found in
  have hascending := ascending_edits hfits (hbefore ▸ source.lined_leaves)
  rw [Fixed.ofFindings_eq hperm hascending hspliced, houtline]

end MatchCheck
