import MatchCheck.Source.Span

/-!
# Programs

A program is a list of items: declarations of enumerated types, whose constructors carry at most one
field, and matches, whose arms are tried against a constructor expression. Every piece keeps the
span it was written at, and a name keeps its own span so that a finding can point at the name alone.
Argument lists are kept as written, whatever their length.
-/

namespace MatchCheck

/-- A name at its place. -/
structure Ident where
  name : String
  span : Span
deriving DecidableEq, Repr, Inhabited

/-- A declared constructor and the type named for its field. -/
structure CtorDecl where
  span : Span
  name : Ident
  field : Option Ident
deriving DecidableEq, Repr

/-- The declaration of a type by its constructors. -/
structure EnumDecl where
  span : Span
  name : Ident
  ctors : List CtorDecl
deriving DecidableEq, Repr

/-- A constructor applied to arguments. -/
inductive Expr where
  | apply (span : Span) (name : Ident) (args : List Expr)
deriving Repr, Inhabited

/-- A written pattern. -/
inductive Pattern where
  | wildcard (span : Span)
  | ctor (span : Span) (name : Ident) (args : List Pattern)
deriving Repr, Inhabited

/-- One arm of a match. Its body is not looked into. -/
structure Arm where
  span : Span
  pattern : Pattern
  bodySpan : Span
deriving Repr

/-- A match of an expression against arms. -/
structure MatchExpr where
  span : Span
  keywordSpan : Span
  scrutinee : Expr
  arms : List Arm
  closeSpan : Span
deriving Repr

/-- A piece of a program at the outermost level. -/
inductive Item where
  | enumDecl (decl : EnumDecl)
  | matchExpr (expr : MatchExpr)
deriving Repr

/-- A program: its items in order. -/
structure Program where
  items : List Item
deriving Repr

namespace Expr

/-- The span of an expression. -/
def span : Expr → Span
  | apply s _ _ => s

/-- The constructor named at the head of an expression. -/
def name : Expr → Ident
  | apply _ n _ => n

/-- The written arguments of an expression. -/
def args : Expr → List Expr
  | apply _ _ as => as

end Expr

/-- The span of a pattern. -/
def Pattern.span : Pattern → Span
  | wildcard s => s
  | ctor s _ _ => s

namespace Item

/-- The declaration, if the item is one. -/
def enumDecl? : Item → Option EnumDecl
  | enumDecl decl => some decl
  | matchExpr _ => none

/-- The match, if the item is one. -/
def matchExpr? : Item → Option MatchExpr
  | enumDecl _ => none
  | matchExpr expr => some expr

end Item

namespace Program

/-- The type declarations of a program. -/
def enumDecls (p : Program) : List EnumDecl :=
  p.items.filterMap Item.enumDecl?

/-- The matches of a program. -/
def matchExprs (p : Program) : List MatchExpr :=
  p.items.filterMap Item.matchExpr?

end Program

end MatchCheck
