import MatchCheck.Diagnostic.Basic
import MatchCheck.Program.Basic

/-!
# Programs without their places

Two texts can hold the same program at different places. `move g` puts every name of a program from
its span `s` to the span `g s`, and forgets the spans of the larger pieces, which are made of those
of their names and brackets. To forget all places is to move every name to one span
(`Program.erase`), so that two programs are the same up to spans if they are equal once erased.

`relocate g h` keeps the larger pieces too: it puts names by `g` and every larger piece by `h`, and
to move names is to relocate while forgetting the larger pieces (`Pattern.relocate_forget`). A
finding is relocated and erased like a program.
-/

namespace MatchCheck

/-- Moves everything to one place. -/
def Span.forget : Span → Span :=
  fun _ => default

variable (g : Span → Span)

/-- A name at another place. -/
def Ident.move (name : Ident) : Ident :=
  ⟨name.name, g name.span⟩

/-- A declared constructor with its names at other places. -/
def CtorDecl.move (c : CtorDecl) : CtorDecl :=
  ⟨default, c.name.move g, c.field.map (Ident.move g)⟩

/-- A declaration with its names at other places. -/
def EnumDecl.move (d : EnumDecl) : EnumDecl :=
  ⟨default, d.name.move g, d.ctors.map (CtorDecl.move g)⟩

mutual

/-- An expression with its names at other places. -/
def Expr.move : Expr → Expr
  | .apply _ name args => .apply default (name.move g) (Expr.moveAll args)

/-- Expressions with their names at other places. -/
def Expr.moveAll : List Expr → List Expr
  | [] => []
  | e :: es => e.move :: Expr.moveAll es

end

mutual

/-- A pattern with its names at other places. -/
def Pattern.move : Pattern → Pattern
  | .wildcard _ => .wildcard default
  | .ctor _ name args => .ctor default (name.move g) (Pattern.moveAll args)

/-- Patterns with their names at other places. -/
def Pattern.moveAll : List Pattern → List Pattern
  | [] => []
  | p :: ps => p.move :: Pattern.moveAll ps

end

/-- An arm with its names at other places. -/
def Arm.move (a : Arm) : Arm :=
  ⟨default, a.pattern.move g, default⟩

/-- A match with its names at other places. -/
def MatchExpr.move (m : MatchExpr) : MatchExpr :=
  ⟨default, default, m.scrutinee.move g, m.arms.map (Arm.move g), default⟩

/-- An item with its names at other places. -/
def Item.move : Item → Item
  | .enumDecl decl => .enumDecl (decl.move g)
  | .matchExpr expr => .matchExpr (expr.move g)

/-- A program with its names at other places. -/
def Program.move (p : Program) : Program :=
  ⟨p.items.map (Item.move g)⟩

/-- A program without its places. -/
def Program.erase (p : Program) : Program :=
  p.move .forget

@[simp] theorem Ident.name_move (name : Ident) : (name.move g).name = name.name := rfl

@[simp] theorem Expr.moveAll_eq_map (es : List Expr) :
    Expr.moveAll g es = es.map (Expr.move g) := by
  induction es with
  | nil => rfl
  | cons e es ih => rw [Expr.moveAll, ih, List.map_cons]

@[simp] theorem Pattern.moveAll_eq_map (ps : List Pattern) :
    Pattern.moveAll g ps = ps.map (Pattern.move g) := by
  induction ps with
  | nil => rfl
  | cons p ps ih => rw [Pattern.moveAll, ih, List.map_cons]

/-- Moving leaves declarations where they are among the items. -/
@[simp] theorem Program.enumDecls_move (p : Program) :
    (p.move g).enumDecls = p.enumDecls.map (EnumDecl.move g) := by
  simp only [enumDecls, move, List.filterMap_map, List.map_filterMap]
  -- the two filters agree item by item
  congr 1
  funext item
  cases item <;> rfl

/-- Moving leaves matches where they are among the items. -/
@[simp] theorem Program.matchExprs_move (p : Program) :
    (p.move g).matchExprs = p.matchExprs.map (MatchExpr.move g) := by
  simp only [matchExprs, move, List.filterMap_map, List.map_filterMap]
  congr 1
  funext item
  cases item <;> rfl

/-! ### Relocating -/

section Relocate

variable (h : Span → Span)

/-- A declared constructor with names and pieces at other places. -/
def CtorDecl.relocate (c : CtorDecl) : CtorDecl :=
  ⟨h c.span, c.name.move g, c.field.map (Ident.move g)⟩

/-- A declaration with names and pieces at other places. -/
def EnumDecl.relocate (d : EnumDecl) : EnumDecl :=
  ⟨h d.span, d.name.move g, d.ctors.map (CtorDecl.relocate g h)⟩

mutual

/-- An expression with names and pieces at other places. -/
def Expr.relocate : Expr → Expr
  | .apply span name args => .apply (h span) (name.move g) (Expr.relocateAll args)

/-- Expressions with names and pieces at other places. -/
def Expr.relocateAll : List Expr → List Expr
  | [] => []
  | e :: es => e.relocate :: Expr.relocateAll es

end

mutual

/-- A pattern with names and pieces at other places. -/
def Pattern.relocate : Pattern → Pattern
  | .wildcard span => .wildcard (h span)
  | .ctor span name args => .ctor (h span) (name.move g) (Pattern.relocateAll args)

/-- Patterns with names and pieces at other places. -/
def Pattern.relocateAll : List Pattern → List Pattern
  | [] => []
  | p :: ps => p.relocate :: Pattern.relocateAll ps

end

/-- An arm with names and pieces at other places. -/
def Arm.relocate (a : Arm) : Arm :=
  ⟨h a.span, a.pattern.relocate g h, h a.bodySpan⟩

/-- A match with names and pieces at other places. -/
def MatchExpr.relocate (m : MatchExpr) : MatchExpr :=
  ⟨h m.span, h m.keywordSpan, m.scrutinee.relocate g h, m.arms.map (Arm.relocate g h),
    h m.closeSpan⟩

/-- An item with names and pieces at other places. -/
def Item.relocate : Item → Item
  | .enumDecl decl => .enumDecl (decl.relocate g h)
  | .matchExpr expr => .matchExpr (expr.relocate g h)

/-- A program with names and pieces at other places. -/
def Program.relocate (p : Program) : Program :=
  ⟨p.items.map (Item.relocate g h)⟩

@[simp] theorem Expr.relocateAll_eq_map (es : List Expr) :
    Expr.relocateAll g h es = es.map (Expr.relocate g h) := by
  induction es with
  | nil => rfl
  | cons e es ih => rw [Expr.relocateAll, ih, List.map_cons]

@[simp] theorem Pattern.relocateAll_eq_map (ps : List Pattern) :
    Pattern.relocateAll g h ps = ps.map (Pattern.relocate g h) := by
  induction ps with
  | nil => rfl
  | cons p ps ih => rw [Pattern.relocateAll, ih, List.map_cons]

@[simp] theorem Expr.name_relocate (e : Expr) : (e.relocate g h).name = e.name.move g := by
  cases e
  rfl

@[simp] theorem Expr.args_relocate (e : Expr) :
    (e.relocate g h).args = e.args.map (Expr.relocate g h) := by
  cases e
  exact Expr.relocateAll_eq_map g h _

/-- A pattern is put where its own span goes, be it a wildcard or not. -/
@[simp] theorem Pattern.span_relocate (p : Pattern) : (p.relocate g h).span = h p.span := by
  cases p <;> rfl

/-- Relocating leaves matches where they are among the items. -/
@[simp] theorem Program.matchExprs_relocate (p : Program) :
    (p.relocate g h).matchExprs = p.matchExprs.map (MatchExpr.relocate g h) := by
  simp only [matchExprs, relocate, List.filterMap_map, List.map_filterMap]
  congr 1
  funext item
  cases item <;> rfl

end Relocate

/-! Where the larger pieces are forgotten, relocating is moving. -/

mutual

/-- An expression is moved if its larger pieces are forgotten. -/
theorem Expr.relocate_forget : ∀ e : Expr, e.relocate g .forget = e.move g
  | .apply _ name args => congrArg (Expr.apply default (name.move g)) (relocateAll_forget args)

theorem Expr.relocateAll_forget : ∀ es : List Expr,
    relocateAll g .forget es = moveAll g es
  | [] => rfl
  | e :: es => by rw [relocateAll, moveAll, e.relocate_forget, relocateAll_forget es]

end

mutual

/-- A pattern is moved if its larger pieces are forgotten. -/
theorem Pattern.relocate_forget : ∀ p : Pattern, p.relocate g .forget = p.move g
  | .wildcard _ => rfl
  | .ctor _ name args => congrArg (Pattern.ctor default (name.move g)) (relocateAll_forget args)

theorem Pattern.relocateAll_forget : ∀ ps : List Pattern,
    relocateAll g .forget ps = moveAll g ps
  | [] => rfl
  | p :: ps => by rw [relocateAll, moveAll, p.relocate_forget, relocateAll_forget ps]

end

/-- An arm is moved if its own span and that of its body are forgotten. -/
theorem Arm.relocate_forget : Arm.relocate g .forget = Arm.move g := by
  funext a
  rw [relocate, a.pattern.relocate_forget]
  rfl

/-- A match is moved if the spans of its keyword, its brace and its pieces are forgotten. -/
theorem MatchExpr.relocate_forget (m : MatchExpr) : m.relocate g .forget = m.move g := by
  rw [relocate, m.scrutinee.relocate_forget, Arm.relocate_forget]
  rfl

/-! What is relocated and then moved is moved twice. -/

variable (g' h : Span → Span)

mutual

/-- The second move of an expression reads the spans that the first has left. -/
theorem Expr.move_relocate : ∀ e : Expr, (e.relocate g h).move g' = e.move (g' ∘ g)
  | .apply _ name args =>
    congrArg (Expr.apply default (name.move (g' ∘ g))) (moveAll_relocateAll args)

theorem Expr.moveAll_relocateAll : ∀ es : List Expr,
    moveAll g' (relocateAll g h es) = moveAll (g' ∘ g) es
  | [] => rfl
  | e :: es => by rw [relocateAll, moveAll, moveAll, e.move_relocate, moveAll_relocateAll es]

end

mutual

/-- The second move of a pattern reads the spans that the first has left. -/
theorem Pattern.move_relocate : ∀ p : Pattern, (p.relocate g h).move g' = p.move (g' ∘ g)
  | .wildcard _ => rfl
  | .ctor _ name args =>
    congrArg (Pattern.ctor default (name.move (g' ∘ g))) (moveAll_relocateAll args)

theorem Pattern.moveAll_relocateAll : ∀ ps : List Pattern,
    moveAll g' (relocateAll g h ps) = moveAll (g' ∘ g) ps
  | [] => rfl
  | p :: ps => by rw [relocateAll, moveAll, moveAll, p.move_relocate, moveAll_relocateAll ps]

end

theorem CtorDecl.move_relocate (c : CtorDecl) : (c.relocate g h).move g' = c.move (g' ∘ g) := by
  simp only [relocate, move, Option.map_map]
  rfl

/-- A declaration that is relocated and then moved is moved twice, with its constructors. -/
theorem EnumDecl.move_relocate (d : EnumDecl) : (d.relocate g h).move g' = d.move (g' ∘ g) := by
  -- the spans of the pieces are forgotten either way, so only the names matter
  have hctors : (d.ctors.map (CtorDecl.relocate g h)).map (CtorDecl.move g') =
      d.ctors.map (CtorDecl.move (g' ∘ g)) := by
    rw [List.map_map]
    exact List.map_congr_left fun c _ => c.move_relocate g g' h
  exact congrArg (EnumDecl.mk default (d.name.move (g' ∘ g))) hctors

theorem Arm.move_relocate (a : Arm) : (a.relocate g h).move g' = a.move (g' ∘ g) :=
  congrArg (Arm.mk default · default) (a.pattern.move_relocate g g' h)

/-- A match that is relocated and then moved is moved twice, with its arms. -/
theorem MatchExpr.move_relocate (m : MatchExpr) : (m.relocate g h).move g' = m.move (g' ∘ g) := by
  have harms : (m.arms.map (Arm.relocate g h)).map (Arm.move g') =
      m.arms.map (Arm.move (g' ∘ g)) := by
    rw [List.map_map]
    exact List.map_congr_left fun a _ => a.move_relocate g g' h
  rw [relocate, move, move, harms, m.scrutinee.move_relocate]

/-- A program that is relocated and then moved is moved twice. -/
theorem Program.move_relocate (p : Program) : (p.relocate g h).move g' = p.move (g' ∘ g) := by
  simp only [relocate, move, List.map_map]
  congr 2
  -- item by item: declarations and matches are moved by themselves
  funext item
  cases item with
  | enumDecl d => exact congrArg Item.enumDecl (d.move_relocate g g' h)
  | matchExpr m => exact congrArg Item.matchExpr (m.move_relocate g g' h)

/-- **A relocated program is the same up to spans.** -/
theorem Program.erase_relocate (p : Program) : (p.relocate g h).erase = p.erase :=
  p.move_relocate g .forget h

/-! ### Findings at other places -/

/-- A remark about another place. -/
def Note.relocate (n : Note) : Note :=
  ⟨n.message, n.span.map g⟩

/-- A replacement at another place. -/
def Edit.relocate (e : Edit) : Edit :=
  ⟨g e.span, e.replacement⟩

/-- A change at other places. -/
def Suggestion.relocate (s : Suggestion) : Suggestion :=
  ⟨s.title, s.edits.map (Edit.relocate g)⟩

namespace Diagnostic

/-- A finding at other places. -/
def relocate (d : Diagnostic) : Diagnostic where
  code := d.code
  severity := d.severity
  message := d.message
  span := g d.span
  notes := d.notes.map (Note.relocate g)
  suggestions := d.suggestions.map (Suggestion.relocate g)

/-- A finding without its places: its code, its severity, its message, the messages of its notes,
and the titles and replacements of its suggestions. -/
def erase (d : Diagnostic) : Diagnostic :=
  d.relocate .forget

/-- The spans of a finding: its own, those of its notes and those of its edits. -/
def spans (d : Diagnostic) : List Span :=
  d.span :: (d.notes.filterMap (·.span) ++ d.suggestions.flatMap fun s => s.edits.map (·.span))

/-- A finding loses its places, wherever they were put before. -/
theorem erase_relocate (d : Diagnostic) : (d.relocate g).erase = d.erase := by
  -- notes and suggestions are gone through one by one; the other parts have no places
  have hnotes : (d.notes.map (Note.relocate g)).map (Note.relocate .forget) =
      d.notes.map (Note.relocate .forget) := by
    rw [List.map_map]
    refine List.map_congr_left fun n _ => congrArg (Note.mk n.message) ?_
    exact Option.map_map _ _ n.span
  have hsuggestions : (d.suggestions.map (Suggestion.relocate g)).map
      (Suggestion.relocate .forget) = d.suggestions.map (Suggestion.relocate .forget) := by
    rw [List.map_map]
    refine List.map_congr_left fun s _ => congrArg (Suggestion.mk s.title) ?_
    exact List.map_map
  simp only [erase, relocate, hnotes, hsuggestions]
  rfl

theorem map_erase_map_relocate (ds : List Diagnostic) :
    (ds.map (relocate g)).map erase = ds.map erase := by
  rw [List.map_map]
  exact List.map_congr_left fun d _ => d.erase_relocate g

/-- The spans of a relocated finding are its spans, relocated. -/
theorem spans_relocate (d : Diagnostic) : (d.relocate g).spans = d.spans.map g := by
  simp only [spans, relocate, List.map_cons, List.map_append, List.filterMap_map,
    List.map_filterMap, List.flatMap_map, List.map_flatMap]
  -- notes and suggestions hold their spans in lists of their own
  congr 3
  funext s
  simp only [Suggestion.relocate, List.map_map]
  rfl

end Diagnostic

end MatchCheck
