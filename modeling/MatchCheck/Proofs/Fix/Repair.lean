import MatchCheck.Proofs.Coverage.Useful
import MatchCheck.Proofs.Fix.NewArm
import MatchCheck.Proofs.Fix.Patch
import MatchCheck.Proofs.Fix.Suggested
import MatchCheck.Proofs.Program.Relabel

/-!
# Repairs of trees

What a repair does to a text, told on its trees. The arms of a match are marked (`MatchTree.marks`),
and from the marks come both the patch of the text (`ItemTree.pieces`) and the tree that is left
(`ItemTree.repaired`). The edits of the patch are those that the findings suggest, and the outline
that the patch leaves is that of the repaired trees.

An arm is removed without the commas behind it. They stay and then stand behind the arm in front
(`ArmTree.remaining`), which is always there: the first arm of a match is never removed
(`MatchTree.fst_remaining_marks`).
-/

namespace MatchCheck

/-! ### Spans and leaves -/

namespace Leaf

variable {l first last : Leaf} {ls : List Leaf}

/-- The first leaf begins first. -/
theorem Lined.start_le (h : Lined ls) (hfirst : first ∈ ls.head?) (hl : l ∈ ls) :
    first.span.start.offset ≤ l.span.start.offset := by
  obtain ⟨rest, rfl⟩ := List.head?_eq_some_iff.mp hfirst
  rcases List.mem_cons.mp hl with rfl | hl
  · exact Nat.le_refl _
  · exact ((List.pairwise_cons.mp h.ascending).1 l hl).le

/-- The last leaf ends last. -/
theorem Lined.le_stop (h : Lined ls) (hlast : last ∈ ls.getLast?) (hl : l ∈ ls) :
    l.span.stop.offset ≤ last.span.stop.offset := by
  obtain ⟨front, rfl⟩ := List.getLast?_eq_some_iff.mp hlast
  -- in front of the last leaf, or the last leaf itself
  rcases List.mem_append.mp hl with hl | hl
  · have := h.proper last (by simp)
    have := (List.pairwise_append.mp h.ordered).2.2 l hl last (List.mem_singleton_self _)
    omega
  · rw [List.mem_singleton.mp hl]

end Leaf

/-- A span from the first leaf to the last. -/
def Span.Covers (s : Span) (ls : List Leaf) : Prop :=
  (∀ l ∈ ls.head?, s.start.offset = l.span.start.offset) ∧
    ∀ l ∈ ls.getLast?, s.stop.offset = l.span.stop.offset

theorem Leaf.covers_span (l : Leaf) : l.span.Covers [l] :=
  ⟨fun _ h => by cases h; rfl, fun _ h => by cases h; rfl⟩

/-- The spans of the two ends make up the span of the whole. -/
theorem Span.Covers.merge {s t : Span} {xs zs : List Leaf} (ys : List Leaf) (hs : s.Covers xs)
    (ht : t.Covers zs) (hxs : xs ≠ []) (hzs : zs ≠ []) (h : Leaf.Lined (xs ++ (ys ++ zs))) :
    (s.merge t).Covers (xs ++ (ys ++ zs)) := by
  obtain ⟨first, hfirst⟩ := Option.ne_none_iff_exists'.mp (mt List.head?_eq_none_iff.mp hxs)
  obtain ⟨z, hz⟩ := Option.ne_none_iff_exists'.mp (mt List.head?_eq_none_iff.mp hzs)
  obtain ⟨x, hx⟩ := Option.ne_none_iff_exists'.mp (mt List.getLast?_eq_none_iff.mp hxs)
  obtain ⟨last, hlast⟩ := Option.ne_none_iff_exists'.mp (mt List.getLast?_eq_none_iff.mp hzs)
  have hhead : first ∈ (xs ++ (ys ++ zs)).head? := by simp [List.head?_append, hfirst]
  have hend : last ∈ (xs ++ (ys ++ zs)).getLast? := by simp [List.getLast?_append, hlast]
  -- leaves ascend, so the first start and the last end are those of the two ends
  have hstart := h.start_le hhead
    (List.mem_append_right _ (List.mem_append_right _ (List.mem_of_head? hz)))
  have hstop := h.le_stop hend (List.mem_append_left _ (List.mem_of_getLast? hx))
  constructor
  · intro l hl
    rw [Option.mem_unique hl hhead, offset_start_merge, hs.1 first hfirst, ht.1 z hz]
    exact Nat.min_eq_left hstart
  · intro l hl
    rw [Option.mem_unique hl hend, offset_stop_merge, hs.2 x hx, ht.2 last hlast]
    exact Nat.max_eq_right hstop

/-- A pattern has the span of its leaves. -/
theorem TermTree.covers_value (t : TermTree .pattern) (h : Leaf.Lined t.leaves) :
    (Pattern.span t.value).Covers t.leaves := by
  cases t with
  | wildcard underscore => exact underscore.leaf.covers_span
  | name head => exact head.leaf.covers_span
  | call head opening args closing =>
    exact head.leaf.covers_span.merge (opening.leaf :: args.leaves) closing.leaf.covers_span
      (by simp) (by simp) h

theorem TermTree.leaves_ne_nil {s : TermSort} (t : TermTree s) : t.leaves ≠ [] := by
  cases t <;> simp [TermTree.leaves]

theorem BlockTree.covers_span (b : BlockTree) (h : Leaf.Lined b.leaves) : b.span.Covers b.leaves :=
  b.opening.leaf.covers_span.merge b.inside b.closing.leaf.covers_span (by simp) (by simp) h

/-- An arm has the span of its leaves, without the commas behind it. -/
theorem ArmTree.covers_arm (a : ArmTree) (h : Leaf.Lined a.armLeaves) :
    a.arm.span.Covers a.armLeaves := by
  have hbody : a.body.span.Covers a.body.leaves := a.body.covers_span h.right.tail
  exact (a.pattern.covers_value h.left).merge [a.arrow.leaf] hbody a.pattern.leaves_ne_nil
    (List.cons_ne_nil _ _) h

/-! ### Marks -/

namespace ArmTree

/-- Arms behind arms of the shapes `earlier`, each with whether it can never be reached. -/
def judged (sig : Signature) (ty : TypeDef) (earlier : List Shape) :
    List ArmTree → List (ArmTree × Bool)
  | [] => []
  | a :: arms =>
    match sig.resolve ty a.arm.pattern with
    | .ok s => (a, !s.useful sig ty earlier) :: judged sig ty (earlier ++ [s]) arms
    | .error _ => (a, false) :: judged sig ty earlier arms

/-- The arms that stay, each with the commas that then stand behind it, and the commas that stand
in front of them all. -/
def remaining : List (ArmTree × Bool) → List (Terminal .comma) × List ArmTree
  | [] => ([], [])
  | (a, true) :: marks => (a.commas ++ (remaining marks).1, (remaining marks).2)
  | (a, false) :: marks =>
    ([], { a with commas := a.commas ++ (remaining marks).1 } :: (remaining marks).2)

variable {sig : Signature} {ty : TypeDef}

/-- Judging keeps the arms. -/
theorem map_fst_judged (earlier : List Shape) (arms : List ArmTree) :
    (judged sig ty earlier arms).map (·.1) = arms := by
  induction arms generalizing earlier with
  | nil => rfl
  | cons a arms ih =>
    rw [judged]
    split <;> rw [List.map_cons, ih]

/-- The marked arms are those that are reported. -/
theorem map_arm_filter_judged (earlier : List Shape) (arms : List ArmTree) :
    ((judged sig ty earlier arms).filter (·.2)).map (·.1.arm) =
      (Shape.unreachableFrom sig ty earlier (sig.resolvedArms ty (arms.map arm))).map (·.1) := by
  -- the shapes in front grow by those that are resolved, on both sides alike
  induction arms generalizing earlier with
  | nil => rfl
  | cons a arms ih =>
    rw [judged, List.map_cons]
    cases hresolve : sig.resolve ty a.arm.pattern with
    -- what cannot be resolved is neither judged nor reported
    | error e =>
      rw [Signature.resolvedArms_cons_of_error hresolve, ← ih]
      simp
    | ok s =>
      rw [Signature.resolvedArms_cons_of_ok hresolve, Shape.unreachableFrom]
      cases huseful : s.useful sig ty earlier <;> simp [huseful, ih]

/-- The leaves that stay are those of the arms that stay, and all commas. -/
theorem leaves_remaining (marks : List (ArmTree × Bool)) :
    (remaining marks).1.map Terminal.leaf ++ (remaining marks).2.flatMap leaves =
      marks.flatMap fun x =>
        (if x.2 then [] else x.1.armLeaves) ++ x.1.commas.map Terminal.leaf := by
  induction marks with
  | nil => rfl
  | cons x marks ih =>
    obtain ⟨a, gone⟩ := x
    rw [List.flatMap_cons, ← ih]
    -- the commas behind a removed arm pass on to the arm in front of it
    cases gone with
    | true => simp [remaining]
    | false => simp [remaining, leaves, armLeaves]

/-- If the first arm stays, all commas have an arm in front of them. -/
theorem fst_remaining_of_head? {marks : List (ArmTree × Bool)}
    (h : ∀ x ∈ marks.head?, x.2 = false) : (remaining marks).1 = [] := by
  cases marks with
  | nil => rfl
  | cons x marks =>
    obtain ⟨a, gone⟩ := x
    obtain rfl : gone = false := h _ rfl
    rfl

/-- If all arms stay, they stay with the commas that they have. -/
theorem remaining_of_forall {marks : List (ArmTree × Bool)} (h : ∀ x ∈ marks, x.2 = false) :
    remaining marks = ([], marks.map (·.1)) := by
  induction marks with
  | nil => rfl
  | cons x marks ih =>
    obtain ⟨a, gone⟩ := x
    obtain rfl : gone = false := h _ List.mem_cons_self
    rw [remaining, ih fun z hz => h z (List.mem_cons_of_mem _ hz)]
    simp

/-- An arm that stays is an arm of before, up to the commas behind it. -/
theorem exists_of_mem_remaining {marks : List (ArmTree × Bool)} {b : ArmTree}
    (h : b ∈ (remaining marks).2) : ∃ a ∈ marks.map (·.1), b.pattern = a.pattern := by
  induction marks with
  | nil => cases h
  | cons x marks ih =>
    obtain ⟨a, gone⟩ := x
    -- a removed arm leaves its commas to the arm in front, but no pattern
    cases gone with
    | true =>
      obtain ⟨a', ha', heq⟩ := ih h
      exact ⟨a', List.mem_cons_of_mem _ ha', heq⟩
    | false =>
      rcases List.mem_cons.mp h with rfl | h
      · exact ⟨a, List.mem_cons_self, rfl⟩
      · obtain ⟨a', ha', heq⟩ := ih h
        exact ⟨a', List.mem_cons_of_mem _ ha', heq⟩

end ArmTree

/-- The first shape is useful for a type that has constructors. -/
theorem Shape.useful_nil {sig : Signature} {ty : TypeDef} {c : CtorDef} (hc : c ∈ ty.ctors)
    (s : Shape) : s.useful sig ty [] = true := by
  cases s with
  | any =>
    -- all of a constructor is missing where there is no shape yet
    rw [useful_any rfl, missing_eq_flatMap rfl]
    have hmem : whole ty c ∈ ty.ctors.flatMap (missingOf sig ty []) := by
      refine List.mem_flatMap.mpr ⟨c, hc, ?_⟩
      rw [missingOf_of_not_named rfl]
      exact List.mem_singleton_self _
    exact List.ne_nil_of_mem hmem
  | bare r => rfl
  | wrap r arg => rfl

namespace MatchTree

variable (sig : Signature) (repair : Repair)

/-- The arms of a match, each with whether the repair removes it. -/
def marks (m : MatchTree) : List (ArmTree × Bool) :=
  match sig.scrutinee m.expr.scrutinee with
  | .error _ => m.arms.map (·, false)
  | .ok (ty, _) =>
    if repair.removes then ArmTree.judged sig ty [] m.arms else m.arms.map (·, false)

/-- The marked arms are the arms of the match. -/
theorem map_fst_marks (m : MatchTree) : (m.marks sig repair).map (·.1) = m.arms := by
  unfold marks
  split
  · simp [Function.comp_def]
  · split
    · exact ArmTree.map_fst_judged _ _
    · simp [Function.comp_def]

/-- The marks are on the arms that the repair removes. -/
theorem map_arm_filter_marks (m : MatchTree) :
    ((m.marks sig repair).filter (·.2)).map (·.1.arm) = m.expr.removed sig repair := by
  unfold marks MatchExpr.removed MatchExpr.unreachable
  -- without a type no arm is marked, and none is reported
  cases hscrutinee : sig.scrutinee m.expr.scrutinee with
  | error e => simp
  | ok found =>
    cases hremoves : repair.removes with
    | true => exact ArmTree.map_arm_filter_judged [] m.arms
    | false => simp

/-- **The first arm stays.** So no comma comes to stand in front of all arms. -/
theorem fst_remaining_marks (m : MatchTree) :
    (ArmTree.remaining (m.marks sig repair)).1 = [] := by
  refine ArmTree.fst_remaining_of_head? fun x hx => ?_
  have hkept : ∀ x ∈ (m.arms.map (·, false)).head?, x.2 = false := by
    intro x hx
    obtain ⟨a, -, rfl⟩ := List.mem_map.mp (List.mem_of_head? hx)
    rfl
  unfold marks at hx
  split at hx
  · exact hkept x hx
  · next ty c hscrutinee =>
    split at hx
    · cases harms : m.arms with
      | nil =>
        rw [harms] at hx
        cases hx
      | cons a arms =>
        -- nothing stands in front of it, and the scrutinee's type has a constructor
        rw [harms, ArmTree.judged] at hx
        split at hx
        · cases hx
          rw [Shape.useful_nil (Signature.mem_of_scrutinee hscrutinee).2.1]
          rfl
        · cases hx
          rfl
    · exact hkept x hx

end MatchTree

/-! ### Pieces -/

/-- The pieces of a marked arm: the arm stays or goes, and each comma behind it stays. -/
def ArmTree.pieces (x : ArmTree × Bool) : List Piece :=
  (if x.2 then .drop x.1.armLeaves ⟨x.1.arm.span, ""⟩ else .keep x.1.armLeaves) ::
    x.1.commas.map fun comma => .keep [comma.leaf]

namespace MatchTree

/-- The piece of the closing brace, in front of which arms for cases are put. -/
def closingPiece (m : MatchTree) (cases : List Shape) : Piece :=
  match cases with
  | [] => .keep [m.closing.leaf]
  | cases => .insert (m.expr.insertion cases) m.closing.leaf

variable (sig : Signature) (repair : Repair)

/-- The pieces of a match under repair. -/
def pieces (m : MatchTree) : List Piece :=
  .keep (m.keyword.leaf :: (m.scrutinee.leaves ++ [m.opening.leaf])) ::
    ((m.marks sig repair).flatMap ArmTree.pieces ++ [m.closingPiece (m.expr.added sig repair)])

/-- A match after its repair. -/
def repaired (m : MatchTree) : MatchTree :=
  { m with arms := (ArmTree.remaining (m.marks sig repair)).2 ++
      (m.expr.added sig repair).map Shape.armTree }

end MatchTree

namespace ItemTree

variable (sig : Signature) (repair : Repair)

/-- The pieces of an item under repair. Declarations stay. -/
def pieces : ItemTree → List Piece
  | enumDecl e => [.keep e.leaves]
  | matchExpr m => m.pieces sig repair

/-- An item after its repair. -/
def repaired : ItemTree → ItemTree
  | enumDecl e => .enumDecl e
  | matchExpr m => .matchExpr (m.repaired sig repair)

end ItemTree

section Pieces

variable {sig : Signature} {repair : Repair}

/-- The pieces of a marked arm hold its leaves. -/
theorem ArmTree.before_pieces (x : ArmTree × Bool) :
    (ArmTree.pieces x).flatMap Piece.before = x.1.leaves := by
  obtain ⟨a, gone⟩ := x
  have hcommas : (a.commas.map fun comma => Piece.keep [comma.leaf]).flatMap Piece.before =
      a.commas.map Terminal.leaf := by
    simp only [List.flatMap_map, Piece.before_keep, ← List.map_eq_flatMap]
  cases gone <;> simp [pieces, leaves, hcommas]

/-- Only an arm that goes is edited, and all of it. -/
theorem ArmTree.edits_pieces (x : ArmTree × Bool) :
    (ArmTree.pieces x).flatMap Piece.edits = if x.2 then [⟨x.1.arm.span, ""⟩] else [] := by
  obtain ⟨a, gone⟩ := x
  cases gone <;> simp [pieces, List.flatMap_map]

/-- Of a marked arm the commas are left, and the arm if it stays. -/
theorem ArmTree.after_pieces (x : ArmTree × Bool) :
    (ArmTree.pieces x).flatMap Piece.after =
      ((if x.2 then [] else x.1.armLeaves) ++ x.1.commas.map Terminal.leaf).map Leaf.strip := by
  obtain ⟨a, gone⟩ := x
  -- commas stay, whether their arm goes or not
  have hcommas : (a.commas.map fun comma => Piece.keep [comma.leaf]).flatMap Piece.after =
      (a.commas.map Terminal.leaf).map Leaf.strip := by
    simp only [List.flatMap_map, Piece.after_keep, List.map_map, List.map_cons, List.map_nil,
      ← List.map_eq_flatMap]
    rfl
  cases gone <;> simp [pieces, hcommas]

theorem MatchTree.before_closingPiece (m : MatchTree) (cases : List Shape) :
    (m.closingPiece cases).before = [m.closing.leaf] := by
  cases cases <;> rfl

theorem MatchTree.edits_closingPiece (m : MatchTree) (cases : List Shape) :
    (m.closingPiece cases).edits = m.expr.insertions cases := by
  cases cases <;> rfl

/-- **The pieces of an item hold its leaves**, each of them once. -/
theorem ItemTree.before_pieces (i : ItemTree) :
    (i.pieces sig repair).flatMap Piece.before = i.leaves := by
  cases i with
  | enumDecl e => simp [pieces, leaves]
  | matchExpr m =>
    -- marking arms keeps them and their order
    have harms : (m.marks sig repair).flatMap (fun x => x.1.leaves) =
        m.arms.flatMap ArmTree.leaves := by
      rw [← m.map_fst_marks sig repair, List.flatMap_map]
    simp [pieces, MatchTree.pieces, List.flatMap_assoc, ArmTree.before_pieces, harms,
      MatchTree.before_closingPiece, leaves, MatchTree.leaves]

/-- The patch of a match makes the edits of its repair. -/
theorem MatchTree.edits_pieces (m : MatchTree) :
    (m.pieces sig repair).flatMap Piece.edits = m.expr.repairEdits sig repair := by
  have hremoved : (m.marks sig repair).flatMap
      (fun x => if x.2 then [(⟨x.1.arm.span, ""⟩ : Edit)] else []) =
        (m.expr.removed sig repair).map (fun arm => ⟨arm.span, ""⟩) := by
    rw [← m.map_arm_filter_marks, List.map_map]
    -- mark by mark, since filtering and mapping pass over the others
    induction m.marks sig repair with
    | nil => rfl
    | cons x marks ih =>
      rw [List.flatMap_cons, ih]
      cases hx : x.2 <;> simp [hx]
  simp [pieces, List.flatMap_assoc, ArmTree.edits_pieces, hremoved, edits_closingPiece,
    MatchExpr.repairEdits]

/-- The patch of a program makes the edits that its findings suggest. -/
theorem ItemTree.edits_pieces (items : List ItemTree) :
    (items.flatMap (ItemTree.pieces sig repair)).flatMap Piece.edits =
      (Program.matchExprs ⟨items.map item⟩).flatMap (MatchExpr.repairEdits sig repair) := by
  rw [List.flatMap_assoc, Program.matchExprs, List.filterMap_map]
  induction items with
  | nil => rfl
  | cons i items ih =>
    rw [List.flatMap_cons, ih]
    -- declarations have no edits, and do not count among the matches
    cases i with
    | enumDecl e =>
      rw [List.filterMap_cons_none rfl]
      simp [pieces]
    | matchExpr m => simp [pieces, item, Item.matchExpr?, MatchTree.edits_pieces]

/-! ### The pieces fit -/

/-- A piece may stay if it ends with a delimiter, behind which nothing depends on what follows. -/
theorem Piece.fits_keep {k : TokenKind} (front : List Leaf) (t : Terminal k)
    (hk : k.isDelimiter = true) : (Piece.keep (front ++ [t.leaf])).Fits where
  before_ne_nil := by simp
  delimited l hl := by
    obtain rfl : t.leaf = l := by simpa using hl
    rw [t.kind_eq]
    exact hk
  editFits := trivial

theorem ArmTree.armLeaves_eq_append (a : ArmTree) :
    a.armLeaves = (a.pattern.leaves ++ a.arrow.leaf :: a.body.opening.leaf :: a.body.inside) ++
      [a.body.closing.leaf] := by
  simp [armLeaves, BlockTree.leaves]

/-- The pieces of an arm fit, whether it stays or goes. -/
theorem ArmTree.fits_pieces {a : ArmTree} (gone : Bool) (h : Leaf.Lined a.armLeaves) :
    ∀ x ∈ ArmTree.pieces (a, gone), x.Fits := by
  -- in both cases it ends with its closing brace
  have hkeep : (Piece.keep a.armLeaves).Fits := by
    rw [a.armLeaves_eq_append]
    exact Piece.fits_keep _ _ rfl
  intro x hx
  rcases List.mem_cons.mp hx with rfl | hx
  · cases gone with
    | false => exact hkeep
    | true => exact ⟨hkeep.before_ne_nil, hkeep.delimited, rfl, a.covers_arm h⟩
  · obtain ⟨comma, -, rfl⟩ := List.mem_map.mp hx
    exact Piece.fits_keep [] comma rfl

/-- The piece of the closing brace fits, since new arms can be read by themselves. -/
theorem MatchTree.fits_closingPiece (m : MatchTree) {cases : List Shape}
    (h : ∀ s ∈ cases, s.Spelled) : (m.closingPiece cases).Fits := by
  have hkeep : (Piece.keep [m.closing.leaf]).Fits := Piece.fits_keep [] m.closing rfl
  cases cases with
  | nil => exact hkeep
  | cons s cases =>
    exact ⟨hkeep.before_ne_nil, hkeep.delimited, rfl, rfl, Shape.closed_scan_join_newArm h⟩

/-- **The pieces of an item fit**, if the names in the cases to add are names. -/
theorem ItemTree.fits_pieces {i : ItemTree} (hlined : Leaf.Lined i.leaves)
    (h : ∀ m, i = .matchExpr m → ∀ s ∈ m.expr.added sig repair, s.Spelled) :
    ∀ x ∈ i.pieces sig repair, x.Fits := by
  cases i with
  | enumDecl e =>
    intro x hx
    obtain rfl := List.mem_singleton.mp hx
    exact Piece.fits_keep (e.keyword.leaf :: e.name.leaf :: e.opening.leaf :: _) e.closing rfl
  | matchExpr m =>
    -- the leaves of an arm stand within those of the match
    have harms : ∀ a ∈ m.arms, Leaf.Lined a.armLeaves := by
      intro a ha
      obtain ⟨front, back, harms⟩ := List.append_of_mem ha
      refine hlined.of_infix ⟨m.keyword.leaf :: (m.scrutinee.leaves ++ m.opening.leaf ::
        front.flatMap ArmTree.leaves), a.commas.map Terminal.leaf ++
          (back.flatMap ArmTree.leaves ++ [m.closing.leaf]), ?_⟩
      simp [leaves, MatchTree.leaves, harms, ArmTree.leaves]
    intro x hx
    rcases List.mem_cons.mp hx with rfl | hx
    · exact Piece.fits_keep (m.keyword.leaf :: m.scrutinee.leaves) m.opening rfl
    rcases List.mem_append.mp hx with hx | hx
    · obtain ⟨⟨a, gone⟩, ha, hx⟩ := List.mem_flatMap.mp hx
      have hmem : a ∈ m.arms := by
        rw [← m.map_fst_marks sig repair]
        exact List.mem_map_of_mem ha
      exact ArmTree.fits_pieces gone (harms a hmem) x hx
    · obtain rfl := List.mem_singleton.mp hx
      exact m.fits_closingPiece (h m rfl)

/-! ### What is left -/

/-- In front of the closing brace stand the new arms, as they are read. -/
theorem MatchTree.after_closingPiece (m : MatchTree) {cases : List Shape}
    (h : ∀ s ∈ cases, s.Spelled) :
    (m.closingPiece cases).after =
      (cases.map Shape.armTree).flatMap ArmTree.leaves ++ [m.closing.leaf.strip] := by
  cases cases with
  | nil => rfl
  | cons s cases =>
    -- the text of the new arms is scanned and outlined as that of their trees
    have hscan := Shape.scan_join_newArm h
    have houtline := Shape.outline_flatMap_armLexemes (s :: cases)
    rw [← hscan] at houtline
    rw [← houtline]
    rfl

/-- **The patch of an item leaves the repaired item.** -/
theorem ItemTree.after_pieces (i : ItemTree)
    (h : ∀ m, i = .matchExpr m → ∀ s ∈ m.expr.added sig repair, s.Spelled) :
    (i.pieces sig repair).flatMap Piece.after = (i.repaired sig repair).leaves.map Leaf.strip := by
  cases i with
  | enumDecl e => simp [pieces, repaired, leaves]
  | matchExpr m =>
    -- no comma is left over in front of the arms, where it could not be read
    have harms := ArmTree.leaves_remaining (m.marks sig repair)
    rw [m.fst_remaining_marks, List.map_nil, List.nil_append] at harms
    have hkept : (m.marks sig repair).flatMap (fun x => (ArmTree.pieces x).flatMap Piece.after) =
        ((ArmTree.remaining (m.marks sig repair)).2.flatMap ArmTree.leaves).map Leaf.strip := by
      simp only [ArmTree.after_pieces, harms, List.map_flatMap]
    have hnew : (m.closingPiece (m.expr.added sig repair)).after =
        (((m.expr.added sig repair).map Shape.armTree).flatMap ArmTree.leaves ++
          [m.closing.leaf]).map Leaf.strip := by
      rw [m.after_closingPiece (h m rfl), List.map_append]
      simp only [List.flatMap_map, List.map_flatMap, Shape.map_strip_leaves_armTree]
      rfl
    simp only [pieces, MatchTree.pieces, List.flatMap_cons, List.flatMap_append, List.flatMap_assoc,
      hkept, List.flatMap_nil, hnew]
    simp [repaired, MatchTree.repaired, leaves, MatchTree.leaves]

end Pieces

end MatchCheck
