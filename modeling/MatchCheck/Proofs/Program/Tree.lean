import MatchCheck.Proofs.Program.Leaf

/-!
# Derivation trees

The grammar of programs as data, without the readers. A tree of each kind of node holds its leaves,
so that a tree says which leaves it derives (`leaves`) and what it stands for (`value`, `decl`,
`arm`, `expr`, `item`). The rules that are not about the shape of a tree are its validity: argument
lists nest at most `maxNesting` deep, two constructors are divided by a comma or by the end of a
line, and an arm has at most one comma behind it.

`Derivation ls` is a list of valid trees that derive exactly the leaves `ls`.
-/

namespace MatchCheck

/-- A leaf of a given kind. -/
structure Terminal (k : TokenKind) where
  leaf : Leaf
  kind_eq : leaf.kind = k

namespace Terminal

variable {k k' : TokenKind}

/-- The span of the leaf. -/
abbrev span (t : Terminal k) : Span :=
  t.leaf.span

/-- The name that the leaf is. -/
def ident (t : Terminal .ident) : Ident :=
  ⟨t.leaf.token.name, t.span⟩

@[simp] theorem span_ident (t : Terminal .ident) : t.ident.span = t.span := rfl

/-- A terminal is told by its leaf. -/
theorem eq_of_leaf_eq {t u : Terminal k} (h : t.leaf = u.leaf) : t = u := by
  cases t
  cases u
  cases h
  rfl

/-- Terminals of different kinds have different leaves. -/
theorem leaf_ne {t : Terminal k} {u : Terminal k'} (h : k ≠ k') : t.leaf ≠ u.leaf := by
  intro heq
  exact h (t.kind_eq.symm.trans ((congrArg Leaf.kind heq).trans u.kind_eq))

end Terminal

/-! ### Expressions and patterns -/

/-- The two kinds of terms. -/
inductive TermSort where
  | expression
  | pattern
deriving DecidableEq, Repr

namespace TermSort

/-- What a term stands for. -/
def Value : TermSort → Type
  | expression => Expr
  | pattern => Pattern

/-- A constructor applied to terms. -/
def apply : (s : TermSort) → Span → Ident → List s.Value → s.Value
  | expression => Expr.apply
  | pattern => Pattern.ctor

end TermSort

mutual

/-- A term: a name with or without an argument list, and among patterns the underscore. -/
inductive TermTree : TermSort → Type
  | wildcard (underscore : Terminal .underscore) : TermTree .pattern
  | name {s : TermSort} (head : Terminal .ident) : TermTree s
  | call {s : TermSort} (head : Terminal .ident) (opening : Terminal .leftParen)
      (args : ArgsTree s) (closing : Terminal .rightParen) : TermTree s

/-- The inside of an argument list: nothing, or terms divided by commas. -/
inductive ArgsTree : TermSort → Type
  | none {s : TermSort} : ArgsTree s
  | some {s : TermSort} (first : TermTree s) (others : MoreArgs s) : ArgsTree s

/-- Further arguments, each behind a comma. -/
inductive MoreArgs : TermSort → Type
  | nil {s : TermSort} : MoreArgs s
  | cons {s : TermSort} (comma : Terminal .comma) (arg : TermTree s) (others : MoreArgs s) :
      MoreArgs s

end

mutual

/-- The leaves of a term. -/
def TermTree.leaves {s : TermSort} : TermTree s → List Leaf
  | .wildcard underscore => [underscore.leaf]
  | .name head => [head.leaf]
  | .call head opening args closing =>
    head.leaf :: opening.leaf :: (args.leaves ++ [closing.leaf])

/-- The leaves inside an argument list. -/
def ArgsTree.leaves {s : TermSort} : ArgsTree s → List Leaf
  | .none => []
  | .some first others => first.leaves ++ others.leaves

/-- The leaves of further arguments. -/
def MoreArgs.leaves {s : TermSort} : MoreArgs s → List Leaf
  | .nil => []
  | .cons comma arg others => comma.leaf :: (arg.leaves ++ others.leaves)

end

mutual

/-- How deep argument lists nest in a term. -/
def TermTree.depth {s : TermSort} : TermTree s → Nat
  | .wildcard _ => 0
  | .name _ => 0
  | .call _ _ args _ => args.depth + 1

/-- How deep argument lists nest inside an argument list. -/
def ArgsTree.depth {s : TermSort} : ArgsTree s → Nat
  | .none => 0
  | .some first others => max first.depth others.depth

/-- How deep argument lists nest in further arguments. -/
def MoreArgs.depth {s : TermSort} : MoreArgs s → Nat
  | .nil => 0
  | .cons _ arg others => max arg.depth others.depth

end

mutual

/-- The expression or the pattern that a term stands for. -/
def TermTree.value {s : TermSort} : TermTree s → s.Value
  | .wildcard underscore => Pattern.wildcard underscore.span
  -- a name alone is a constructor without arguments, like one with empty parentheses
  | .name head => s.apply head.span head.ident []
  | .call head _ args closing => s.apply (head.span.merge closing.span) head.ident args.values

/-- The arguments in an argument list. -/
def ArgsTree.values {s : TermSort} : ArgsTree s → List s.Value
  | .none => []
  | .some first others => first.value :: others.values

/-- The further arguments. -/
def MoreArgs.values {s : TermSort} : MoreArgs s → List s.Value
  | .nil => []
  | .cons _ arg others => arg.value :: others.values

end

/-! ### Declarations -/

/-- The parentheses behind a constructor and the field type in them, if there is one, with or
without a comma behind it. -/
structure FieldTree where
  opening : Terminal .leftParen
  field : Option (Terminal .ident × Option (Terminal .comma))
  closing : Terminal .rightParen

/-- A constructor: a name, with or without parentheses. -/
structure CtorTree where
  name : Terminal .ident
  fields : Option FieldTree

/-- The declaration of a type. Each constructor stands with the comma behind it, if there is one. -/
structure EnumTree where
  keyword : Terminal .enumWord
  name : Terminal .ident
  opening : Terminal .leftBrace
  ctors : List (CtorTree × Option (Terminal .comma))
  closing : Terminal .rightBrace

/-- The leaf of a piece that may be left out. -/
def Terminal.optional {k : TokenKind} (t? : Option (Terminal k)) : List Leaf :=
  (t?.map Terminal.leaf).toList

namespace FieldTree

/-- The leaves between a constructor's parentheses. -/
def inside : Option (Terminal .ident × Option (Terminal .comma)) → List Leaf
  | none => []
  | some (type, comma?) => type.leaf :: Terminal.optional comma?

/-- The leaves of a constructor's parentheses. -/
def leaves (f : FieldTree) : List Leaf :=
  f.opening.leaf :: (inside f.field ++ [f.closing.leaf])

end FieldTree

namespace CtorTree

/-- The leaves of a constructor. -/
def leaves (c : CtorTree) : List Leaf :=
  match c.fields with
  | none => [c.name.leaf]
  | some f => c.name.leaf :: f.leaves

/-- The last leaf of a constructor. -/
def last (c : CtorTree) : Leaf :=
  match c.fields with
  | none => c.name.leaf
  | some f => f.closing.leaf

/-- The declaration of the constructor. -/
def decl (c : CtorTree) : CtorDecl :=
  match c.fields with
  | none => ⟨c.name.span, c.name.ident, none⟩
  | some f => ⟨c.name.span.merge f.closing.span, c.name.ident, f.field.map (·.1.ident)⟩

end CtorTree

namespace EnumTree

/-- The leaves of a constructor and of the comma behind it. -/
def roundLeaves (c : CtorTree × Option (Terminal .comma)) : List Leaf :=
  c.1.leaves ++ Terminal.optional c.2

/-- The leaves of constructors with their commas. -/
def ctorLeaves (ctors : List (CtorTree × Option (Terminal .comma))) : List Leaf :=
  ctors.flatMap roundLeaves

/-- The leaves of a declaration. -/
def leaves (e : EnumTree) : List Leaf :=
  e.keyword.leaf :: e.name.leaf :: e.opening.leaf :: (ctorLeaves e.ctors ++ [e.closing.leaf])

/-- The declaration of the type. -/
def decl (e : EnumTree) : EnumDecl :=
  ⟨e.keyword.span.merge e.closing.span, e.name.ident, e.ctors.map (·.1.decl)⟩

/-- Every constructor but the last is divided from the next, by a comma or by the end of a line. -/
def Divided (ctors : List (CtorTree × Option (Terminal .comma))) : Prop :=
  -- the closing brace is enough behind the last one
  ∀ c ∈ ctors.dropLast, c.2 = none → c.1.last.lastInLine = true

end EnumTree

/-! ### Matches -/

/-- Kinds in which every brace has its partner. -/
inductive Balanced : List TokenKind → Prop
  | nil : Balanced []
  | plain {k : TokenKind} {ks : List TokenKind} (hleft : k ≠ .leftBrace) (hright : k ≠ .rightBrace)
      (hks : Balanced ks) : Balanced (k :: ks)
  | braces {ks ks' : List TokenKind} (hks : Balanced ks) (hks' : Balanced ks') :
      Balanced (.leftBrace :: (ks ++ .rightBrace :: ks'))

/-- A body in braces. Inside stands whatever is balanced. -/
structure BlockTree where
  opening : Terminal .leftBrace
  inside : List Leaf
  balanced : Balanced (inside.map Leaf.kind)
  closing : Terminal .rightBrace

/-- An arm and the commas behind it. -/
structure ArmTree where
  pattern : TermTree .pattern
  arrow : Terminal .fatArrow
  body : BlockTree
  commas : List (Terminal .comma)

/-- A match. -/
structure MatchTree where
  keyword : Terminal .matchWord
  scrutinee : TermTree .expression
  opening : Terminal .leftBrace
  arms : List ArmTree
  closing : Terminal .rightBrace

namespace BlockTree

/-- The leaves of a body. -/
def leaves (b : BlockTree) : List Leaf :=
  b.opening.leaf :: (b.inside ++ [b.closing.leaf])

/-- The span from brace to brace. -/
def span (b : BlockTree) : Span :=
  b.opening.span.merge b.closing.span

end BlockTree

namespace ArmTree

/-- The leaves of an arm without the commas behind it. -/
def armLeaves (a : ArmTree) : List Leaf :=
  a.pattern.leaves ++ a.arrow.leaf :: a.body.leaves

/-- The leaves of an arm and of the commas behind it. -/
def leaves (a : ArmTree) : List Leaf :=
  a.armLeaves ++ a.commas.map Terminal.leaf

/-- The arm. -/
def arm (a : ArmTree) : Arm :=
  let pattern : Pattern := a.pattern.value
  ⟨pattern.span.merge a.body.span, pattern, a.body.span⟩

/-- Argument lists nest no deeper than they may. -/
def Shallow (a : ArmTree) : Prop :=
  a.pattern.depth ≤ maxNesting

/-- At most one comma stands behind the arm. -/
def Divided (a : ArmTree) : Prop :=
  a.commas.length ≤ 1

end ArmTree

namespace MatchTree

/-- The leaves of a match. -/
def leaves (m : MatchTree) : List Leaf :=
  m.keyword.leaf :: (m.scrutinee.leaves ++ m.opening.leaf ::
    (m.arms.flatMap ArmTree.leaves ++ [m.closing.leaf]))

/-- The match. -/
def expr (m : MatchTree) : MatchExpr :=
  ⟨m.keyword.span.merge m.closing.span, m.keyword.span, m.scrutinee.value,
    m.arms.map ArmTree.arm, m.closing.span⟩

end MatchTree

/-! ### Items and programs -/

/-- A declaration or a match. -/
inductive ItemTree where
  | enumDecl (e : EnumTree)
  | matchExpr (m : MatchTree)

namespace ItemTree

/-- The leaves of an item. -/
def leaves : ItemTree → List Leaf
  | enumDecl e => e.leaves
  | matchExpr m => m.leaves

/-- The item. -/
def item : ItemTree → Item
  | enumDecl e => .enumDecl e.decl
  | matchExpr m => .matchExpr m.expr

/-- The rules of the grammar that are not about the shape of a tree. -/
def Valid : ItemTree → Prop
  | enumDecl e => EnumTree.Divided e.ctors
  -- a declaration has no argument lists, so that only a match can nest them too deep
  | matchExpr m => m.scrutinee.depth ≤ maxNesting ∧ ∀ a ∈ m.arms, a.Shallow ∧ a.Divided

end ItemTree

/-- A way to derive leaves by the grammar. -/
structure Derivation (ls : List Leaf) where
  items : List ItemTree
  valid : ∀ i ∈ items, i.Valid
  leaves_eq : items.flatMap ItemTree.leaves = ls

/-- The program that a derivation reads. -/
def Derivation.program {ls : List Leaf} (d : Derivation ls) : Program :=
  ⟨d.items.map ItemTree.item⟩

end MatchCheck
