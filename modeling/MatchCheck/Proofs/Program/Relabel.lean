import MatchCheck.Proofs.Program.Outline
import MatchCheck.Proofs.Program.Unambiguous

/-!
# Trees of moved leaves

A tree whose leaves are moved is a tree of the moved leaves (`leaves_move`). It is as valid as
before (`ItemTree.valid_move_iff`), since no rule of the grammar is about places, and what it stands
for moves along (`ItemTree.item_move`).

The other way round, every tree of stripped leaves comes from a tree of the leaves themselves
(`Lifts`). So a text can be read exactly if its outline can be (`Derivation.nonempty_iff`), and
since the grammar is unambiguous its program is known from any trees with its outline
(`Derivation.map_strip_items`, `Derivation.erase_program`).

Stripping forgets too much where the order of places counts. Trees of one outline are also moved
copies of each other, by a move that keeps the order of the leaves (`ItemTree.exists_move`).
-/

namespace MatchCheck

variable (g : Span → Span)

/-! ### Moved trees -/

/-- A leaf of a given kind at another place. -/
def Terminal.move {k : TokenKind} (t : Terminal k) : Terminal k :=
  ⟨t.leaf.move g, t.kind_eq⟩

mutual

/-- A term of moved leaves. -/
def TermTree.move {s : TermSort} : TermTree s → TermTree s
  | .wildcard underscore => .wildcard (underscore.move g)
  | .name head => .name (head.move g)
  | .call head opening args closing =>
    .call (head.move g) (opening.move g) args.move (closing.move g)

/-- The inside of an argument list of moved leaves. -/
def ArgsTree.move {s : TermSort} : ArgsTree s → ArgsTree s
  | .none => .none
  | .some first others => .some first.move others.move

/-- Further arguments of moved leaves. -/
def MoreArgs.move {s : TermSort} : MoreArgs s → MoreArgs s
  | .nil => .nil
  | .cons comma arg others => .cons (comma.move g) arg.move others.move

end

/-- A constructor's parentheses of moved leaves. -/
def FieldTree.move (f : FieldTree) : FieldTree where
  opening := f.opening.move g
  field := f.field.map (Prod.map (Terminal.move g) (Option.map (Terminal.move g)))
  closing := f.closing.move g

/-- A constructor of moved leaves. -/
def CtorTree.move (c : CtorTree) : CtorTree :=
  ⟨c.name.move g, c.fields.map (FieldTree.move g)⟩

/-- A declaration of moved leaves. -/
def EnumTree.move (e : EnumTree) : EnumTree where
  keyword := e.keyword.move g
  name := e.name.move g
  opening := e.opening.move g
  ctors := e.ctors.map (Prod.map (CtorTree.move g) (Option.map (Terminal.move g)))
  closing := e.closing.move g

/-- A move leaves all kinds as they are, and with them the balance of braces. -/
theorem Leaf.map_kind_map_move (ls : List Leaf) :
    (ls.map (Leaf.move g)).map Leaf.kind = ls.map Leaf.kind := by
  rw [List.map_map]
  rfl

/-- A body of moved leaves. -/
def BlockTree.move (b : BlockTree) : BlockTree where
  opening := b.opening.move g
  inside := b.inside.map (Leaf.move g)
  balanced := Leaf.map_kind_map_move g b.inside ▸ b.balanced
  closing := b.closing.move g

/-- An arm of moved leaves. -/
def ArmTree.move (a : ArmTree) : ArmTree where
  pattern := a.pattern.move g
  arrow := a.arrow.move g
  body := a.body.move g
  commas := a.commas.map (Terminal.move g)

/-- A match of moved leaves. -/
def MatchTree.move (m : MatchTree) : MatchTree where
  keyword := m.keyword.move g
  scrutinee := m.scrutinee.move g
  opening := m.opening.move g
  arms := m.arms.map (ArmTree.move g)
  closing := m.closing.move g

/-- An item of moved leaves. -/
def ItemTree.move : ItemTree → ItemTree
  | .enumDecl e => .enumDecl (e.move g)
  | .matchExpr m => .matchExpr (m.move g)

/-! ### The leaves of a moved tree -/

@[simp] theorem Terminal.leaf_move {k : TokenKind} (t : Terminal k) :
    (t.move g).leaf = t.leaf.move g := rfl

@[simp] theorem Terminal.map_leaf_map_move {k : TokenKind} (ts : List (Terminal k)) :
    (ts.map (Terminal.move g)).map Terminal.leaf = (ts.map Terminal.leaf).map (Leaf.move g) := by
  rw [List.map_map, List.map_map]
  rfl

@[simp] theorem Terminal.optional_map_move {k : TokenKind} (t? : Option (Terminal k)) :
    Terminal.optional (t?.map (Terminal.move g)) = (Terminal.optional t?).map (Leaf.move g) := by
  cases t? <;> rfl

mutual

/-- The leaves of a moved term are its leaves, moved. -/
@[simp] theorem TermTree.leaves_move {s : TermSort} :
    ∀ t : TermTree s, (t.move g).leaves = t.leaves.map (Leaf.move g)
  | .wildcard _ => rfl
  | .name _ => rfl
  | .call _ _ args _ => by
    simp [TermTree.move, TermTree.leaves, ArgsTree.leaves_move args]

@[simp] theorem ArgsTree.leaves_move {s : TermSort} :
    ∀ a : ArgsTree s, (a.move g).leaves = a.leaves.map (Leaf.move g)
  | .none => rfl
  | .some first others => by
    simp [ArgsTree.move, ArgsTree.leaves, TermTree.leaves_move first, MoreArgs.leaves_move others]

@[simp] theorem MoreArgs.leaves_move {s : TermSort} :
    ∀ a : MoreArgs s, (a.move g).leaves = a.leaves.map (Leaf.move g)
  | .nil => rfl
  | .cons _ arg others => by
    simp [MoreArgs.move, MoreArgs.leaves, TermTree.leaves_move arg, MoreArgs.leaves_move others]

end

/-- The leaves of a moved constructor are its leaves, moved. -/
@[simp] theorem CtorTree.leaves_move (c : CtorTree) :
    (c.move g).leaves = c.leaves.map (Leaf.move g) := by
  obtain ⟨name, fields⟩ := c
  -- with a field or with empty parentheses
  cases fields with
  | none => rfl
  | some f =>
    obtain ⟨opening, field, closing⟩ := f
    cases field <;>
      simp [CtorTree.move, CtorTree.leaves, FieldTree.move, FieldTree.leaves, FieldTree.inside]

@[simp] theorem EnumTree.leaves_move (e : EnumTree) :
    (e.move g).leaves = e.leaves.map (Leaf.move g) := by
  simp [EnumTree.move, EnumTree.leaves, EnumTree.ctorLeaves, EnumTree.roundLeaves,
    List.flatMap_map, List.map_flatMap]

@[simp] theorem ArmTree.leaves_move (a : ArmTree) :
    (a.move g).leaves = a.leaves.map (Leaf.move g) := by
  simp [ArmTree.move, ArmTree.leaves, ArmTree.armLeaves, BlockTree.move, BlockTree.leaves]

@[simp] theorem MatchTree.leaves_move (m : MatchTree) :
    (m.move g).leaves = m.leaves.map (Leaf.move g) := by
  simp [MatchTree.move, MatchTree.leaves, List.flatMap_map, List.map_flatMap]

@[simp] theorem ItemTree.leaves_move (i : ItemTree) :
    (i.move g).leaves = i.leaves.map (Leaf.move g) := by
  cases i with
  | enumDecl e => exact e.leaves_move g
  | matchExpr m => exact m.leaves_move g

/-! ### The validity of a moved tree -/

mutual

/-- A moved term is nested as deep as before. -/
@[simp] theorem TermTree.depth_move {s : TermSort} :
    ∀ t : TermTree s, (t.move g).depth = t.depth
  | .wildcard _ => rfl
  | .name _ => rfl
  | .call _ _ args _ => by rw [TermTree.move, TermTree.depth, TermTree.depth, args.depth_move]

@[simp] theorem ArgsTree.depth_move {s : TermSort} :
    ∀ a : ArgsTree s, (a.move g).depth = a.depth
  | .none => rfl
  | .some first others => by
    rw [ArgsTree.move, ArgsTree.depth, ArgsTree.depth, first.depth_move, others.depth_move]

@[simp] theorem MoreArgs.depth_move {s : TermSort} :
    ∀ a : MoreArgs s, (a.move g).depth = a.depth
  | .nil => rfl
  | .cons _ arg others => by
    rw [MoreArgs.move, MoreArgs.depth, MoreArgs.depth, arg.depth_move, others.depth_move]

end

/-- Of the last leaf of a constructor the end of the line is kept. -/
theorem CtorTree.lastInLine_last_move (c : CtorTree) :
    (c.move g).last.lastInLine = c.last.lastInLine := by
  obtain ⟨name, fields⟩ := c
  cases fields with
  | none =>
    -- a move forgets the end of the line only of leaves with which no constructor ends
    change (name.leaf.kind.endsCtor && name.leaf.lastInLine) = name.leaf.lastInLine
    rw [name.kind_eq]
    rfl
  | some f =>
    change (f.closing.leaf.kind.endsCtor && f.closing.leaf.lastInLine) = f.closing.leaf.lastInLine
    rw [f.closing.kind_eq]
    rfl

/-- A move keeps what divides constructors: the commas, and the line ends behind constructors. -/
theorem EnumTree.divided_move_iff (e : EnumTree) :
    EnumTree.Divided (e.move g).ctors ↔ EnumTree.Divided e.ctors := by
  simp only [EnumTree.Divided, EnumTree.move, ← List.map_dropLast, List.forall_mem_map,
    Prod.map_fst, Prod.map_snd, Option.map_eq_none_iff, CtorTree.lastInLine_last_move]

/-- **No rule of the grammar is about places.** A moved item is valid exactly if the item is. -/
theorem ItemTree.valid_move_iff (i : ItemTree) : (i.move g).Valid ↔ i.Valid := by
  cases i with
  | enumDecl e => exact e.divided_move_iff g
  | matchExpr m =>
    -- matches are restricted by depths and by commas, which a move does not touch
    simp [ItemTree.move, ItemTree.Valid, MatchTree.move, ArmTree.move, ArmTree.Shallow,
      ArmTree.Divided]

/-! ### What a moved tree stands for -/

/-- An expression or a pattern with its names at other places. -/
def TermSort.move : (s : TermSort) → s.Value → s.Value
  | .expression => Expr.move g
  | .pattern => Pattern.move g

/-- Moving goes inside an application, for expressions and patterns alike. -/
theorem TermSort.move_apply (s : TermSort) (span : Span) (name : Ident) (args : List s.Value) :
    s.move g (s.apply span name args) = s.apply default (name.move g) (args.map (s.move g)) := by
  cases s with
  | expression => exact congrArg _ (Expr.moveAll_eq_map g args)
  | pattern => exact congrArg _ (Pattern.moveAll_eq_map g args)

mutual

/-- What a moved term stands for is what the term stands for, moved. The spans of larger pieces are
forgotten on both sides. -/
theorem TermTree.value_move {s : TermSort} :
    ∀ t : TermTree s, s.move id (t.move g).value = s.move g t.value
  | .wildcard _ => rfl
  | .name _ => by
    rw [TermTree.move, TermTree.value, TermTree.value, s.move_apply, s.move_apply]
    rfl
  | .call _ _ args _ => by
    rw [TermTree.move, TermTree.value, TermTree.value, s.move_apply, s.move_apply,
      args.values_move]
    rfl

theorem ArgsTree.values_move {s : TermSort} :
    ∀ a : ArgsTree s, (a.move g).values.map (s.move id) = a.values.map (s.move g)
  | .none => rfl
  | .some first others => by
    rw [ArgsTree.move, ArgsTree.values, ArgsTree.values, List.map_cons, List.map_cons,
      first.value_move, others.values_move]

theorem MoreArgs.values_move {s : TermSort} :
    ∀ a : MoreArgs s, (a.move g).values.map (s.move id) = a.values.map (s.move g)
  | .nil => rfl
  | .cons _ arg others => by
    rw [MoreArgs.move, MoreArgs.values, MoreArgs.values, List.map_cons, List.map_cons,
      arg.value_move, others.values_move]

end

/-- A moved constructor declares the moved constructor. -/
theorem CtorTree.decl_move (c : CtorTree) : (c.move g).decl.move id = c.decl.move g := by
  obtain ⟨name, fields⟩ := c
  cases fields with
  | none => rfl
  | some f =>
    obtain ⟨opening, field, closing⟩ := f
    cases field <;> rfl

/-- A moved declaration declares the moved type. -/
theorem EnumTree.decl_move (e : EnumTree) : (e.move g).decl.move id = e.decl.move g := by
  have hctors : ((e.move g).ctors.map (·.1.decl)).map (CtorDecl.move id) =
      (e.ctors.map (·.1.decl)).map (CtorDecl.move g) := by
    simp [EnumTree.move, CtorTree.decl_move]
  simp only [EnumTree.decl, EnumDecl.move, hctors]
  rfl

theorem ArmTree.arm_move (a : ArmTree) : (a.move g).arm.move id = a.arm.move g :=
  congrArg (Arm.mk default · default) (a.pattern.value_move g)

/-- A moved match is the moved match. -/
theorem MatchTree.expr_move (m : MatchTree) : (m.move g).expr.move id = m.expr.move g := by
  have hscrutinee := m.scrutinee.value_move g
  have harms : ((m.move g).arms.map ArmTree.arm).map (Arm.move id) =
      (m.arms.map ArmTree.arm).map (Arm.move g) := by
    simp [MatchTree.move, ArmTree.arm_move]
  simp only [MatchTree.expr, MatchExpr.move, harms]
  exact congrArg (MatchExpr.mk default default · _ default) hscrutinee

/-- **What a moved item stands for is what the item stands for, moved.** -/
theorem ItemTree.item_move (i : ItemTree) : (i.move g).item.move id = i.item.move g := by
  cases i with
  | enumDecl e => exact congrArg Item.enumDecl (e.decl_move g)
  | matchExpr m => exact congrArg Item.matchExpr (m.expr_move g)

/-! ### Trees of stripped leaves -/

/-- Whatever leaves strip to those of `a`, they have a tree that strips to `a`. -/
def Lifts {α : Type} (leaves : α → List Leaf) (strip : α → α) (a : α) : Prop :=
  ∀ ls, ls.map Leaf.strip = leaves a → ∃ b, leaves b = ls ∧ strip b = a

/-- Trees that stand one behind the other are lifted one by one. -/
theorem Lifts.flatMap {α : Type} {leaves : α → List Leaf} {strip : α → α} {as : List α}
    (h : ∀ a ∈ as, Lifts leaves strip a) : Lifts (List.flatMap leaves) (List.map strip) as := by
  induction as with
  | nil =>
    intro ls hls
    exact ⟨[], (List.map_eq_nil_iff.mp hls).symm, rfl⟩
  | cons a as ih =>
    intro ls hls
    rw [List.flatMap_cons] at hls
    -- the leaves are cut where those of the first tree end
    obtain ⟨front, back, rfl, hfront, hback⟩ := List.map_eq_append_iff.mp hls
    obtain ⟨b, rfl, rfl⟩ := h a List.mem_cons_self front hfront
    obtain ⟨bs, rfl, rfl⟩ := ih (fun x hx => h x (List.mem_cons_of_mem _ hx)) back hback
    exact ⟨b :: bs, rfl, rfl⟩

namespace Terminal

variable {k : TokenKind} {ls ms : List Leaf}

/-- A leaf that strips to a terminal is a terminal of the same kind. -/
theorem exists_cons_of_strip {t : Terminal k} (h : ls.map Leaf.strip = t.leaf :: ms) :
    ∃ u : Terminal k, ∃ rest, ls = u.leaf :: rest ∧ u.move .forget = t ∧
      rest.map Leaf.strip = ms := by
  obtain ⟨l, rest, rfl, hl, hrest⟩ := List.map_eq_cons_iff.mp h
  have hkind : l.kind = k := (congrArg Leaf.kind hl).trans t.kind_eq
  exact ⟨⟨l, hkind⟩, rest, rfl, eq_of_leaf_eq hl, hrest⟩

/-- A terminal that may be missing is lifted. -/
theorem lifts_optional (t? : Option (Terminal k)) :
    Lifts optional (Option.map (Terminal.move .forget)) t? := by
  intro ls hls
  cases t? with
  | none => exact ⟨none, (List.map_eq_nil_iff.mp hls).symm, rfl⟩
  | some t =>
    obtain ⟨u, rest, rfl, rfl, hrest⟩ := exists_cons_of_strip hls
    obtain rfl := List.map_eq_nil_iff.mp hrest
    exact ⟨some u, rfl, rfl⟩

/-- Terminals of one kind are lifted one by one. -/
theorem lifts_map (ts : List (Terminal k)) :
    Lifts (List.map leaf) (List.map (Terminal.move .forget)) ts := by
  induction ts with
  | nil =>
    intro ls hls
    exact ⟨[], (List.map_eq_nil_iff.mp hls).symm, rfl⟩
  | cons t ts ih =>
    intro ls hls
    obtain ⟨u, rest, rfl, rfl, hrest⟩ := exists_cons_of_strip hls
    obtain ⟨us, rfl, rfl⟩ := ih rest hrest
    exact ⟨u :: us, rfl, rfl⟩

/-- A leaf alone is the end of what it closes. -/
theorem exists_of_strip_singleton {t : Terminal k} (h : ls.map Leaf.strip = [t.leaf]) :
    ∃ u : Terminal k, ls = [u.leaf] ∧ u.move .forget = t := by
  obtain ⟨u, rest, rfl, hu, hrest⟩ := exists_cons_of_strip h
  obtain rfl := List.map_eq_nil_iff.mp hrest
  exact ⟨u, rfl, hu⟩

end Terminal

mutual

/-- **Terms are lifted.** The leaves are cut where those of the stripped tree are. -/
theorem TermTree.lifts {s : TermSort} :
    ∀ t : TermTree s, Lifts TermTree.leaves (TermTree.move .forget) t
  | .wildcard _, ls, h => by
    obtain ⟨v, rfl, rfl⟩ := Terminal.exists_of_strip_singleton h
    exact ⟨.wildcard v, rfl, rfl⟩
  | .name _, ls, h => by
    obtain ⟨v, rfl, rfl⟩ := Terminal.exists_of_strip_singleton h
    exact ⟨.name v, rfl, rfl⟩
  | .call head opening args closing, ls, h => by
    obtain ⟨head', rest, rfl, rfl, hrest⟩ := Terminal.exists_cons_of_strip h
    obtain ⟨opening', rest, rfl, rfl, hinside⟩ := Terminal.exists_cons_of_strip hrest
    -- the inside of the parentheses is cut off in front of the closing one
    obtain ⟨inside, last, rfl, hargs, hlast⟩ := List.map_eq_append_iff.mp hinside
    obtain ⟨args', rfl, hargs'⟩ := ArgsTree.lifts args inside hargs
    obtain ⟨closing', rfl, rfl⟩ := Terminal.exists_of_strip_singleton hlast
    exact ⟨.call head' opening' args' closing', rfl, by rw [TermTree.move, hargs']⟩

/-- The same for the inside of an argument list. -/
theorem ArgsTree.lifts {s : TermSort} :
    ∀ a : ArgsTree s, Lifts ArgsTree.leaves (ArgsTree.move .forget) a
  | .none, ls, h => ⟨.none, (List.map_eq_nil_iff.mp h).symm, rfl⟩
  | .some first others, ls, h => by
    obtain ⟨front, back, rfl, hfront, hback⟩ := List.map_eq_append_iff.mp h
    obtain ⟨first', rfl, hfirst⟩ := TermTree.lifts first front hfront
    obtain ⟨others', rfl, hothers⟩ := MoreArgs.lifts others back hback
    exact ⟨.some first' others', rfl, by rw [ArgsTree.move, hfirst, hothers]⟩

/-- The same for further arguments. -/
theorem MoreArgs.lifts {s : TermSort} :
    ∀ a : MoreArgs s, Lifts MoreArgs.leaves (MoreArgs.move .forget) a
  | .nil, ls, h => ⟨.nil, (List.map_eq_nil_iff.mp h).symm, rfl⟩
  | .cons comma arg others, ls, h => by
    obtain ⟨comma', rest, rfl, rfl, hrest⟩ := Terminal.exists_cons_of_strip h
    -- behind the comma come the leaves of one argument, and then the others
    obtain ⟨front, back, rfl, hfront, hback⟩ := List.map_eq_append_iff.mp hrest
    obtain ⟨arg', rfl, harg⟩ := TermTree.lifts arg front hfront
    obtain ⟨others', rfl, hothers⟩ := MoreArgs.lifts others back hback
    exact ⟨.cons comma' arg' others', rfl, by rw [MoreArgs.move, harg, hothers]⟩

end

/-- The parentheses of a constructor are lifted, with a field or without. -/
theorem FieldTree.lifts (f : FieldTree) : Lifts FieldTree.leaves (FieldTree.move .forget) f := by
  obtain ⟨opening, field, closing⟩ := f
  intro ls h
  -- the leaves are cut where those of the tree are, part by part
  obtain ⟨opening', rest, rfl, rfl, hrest⟩ := Terminal.exists_cons_of_strip h
  obtain ⟨inside, last, rfl, hinside, hlast⟩ := List.map_eq_append_iff.mp hrest
  obtain ⟨closing', rfl, rfl⟩ := Terminal.exists_of_strip_singleton hlast
  cases field with
  | none =>
    obtain rfl := List.map_eq_nil_iff.mp hinside
    exact ⟨⟨opening', none, closing'⟩, rfl, rfl⟩
  | some field =>
    obtain ⟨type, comma?⟩ := field
    obtain ⟨type', rest, rfl, rfl, hcomma⟩ := Terminal.exists_cons_of_strip hinside
    obtain ⟨comma', rfl, rfl⟩ := Terminal.lifts_optional comma? rest hcomma
    exact ⟨⟨opening', some (type', comma'), closing'⟩, rfl, rfl⟩

/-- Constructors are lifted. -/
theorem CtorTree.lifts (c : CtorTree) : Lifts CtorTree.leaves (CtorTree.move .forget) c := by
  obtain ⟨name, fields⟩ := c
  intro ls h
  cases fields with
  | none =>
    obtain ⟨name', rfl, rfl⟩ := Terminal.exists_of_strip_singleton h
    exact ⟨⟨name', none⟩, rfl, rfl⟩
  | some f =>
    obtain ⟨name', rest, rfl, rfl, hrest⟩ := Terminal.exists_cons_of_strip h
    obtain ⟨f', rfl, rfl⟩ := f.lifts rest hrest
    exact ⟨⟨name', some f'⟩, rfl, rfl⟩

/-- A constructor is lifted together with its comma. -/
theorem EnumTree.lifts_round (c : CtorTree × Option (Terminal .comma)) :
    Lifts EnumTree.roundLeaves
      (Prod.map (CtorTree.move .forget) (Option.map (Terminal.move .forget))) c := by
  intro ls h
  obtain ⟨front, back, rfl, hfront, hback⟩ := List.map_eq_append_iff.mp h
  obtain ⟨c', rfl, hc⟩ := c.1.lifts front hfront
  obtain ⟨comma', rfl, hcomma⟩ := Terminal.lifts_optional c.2 back hback
  exact ⟨(c', comma'), rfl, Prod.ext hc hcomma⟩

/-- Declarations are lifted. -/
theorem EnumTree.lifts (e : EnumTree) : Lifts EnumTree.leaves (EnumTree.move .forget) e := by
  obtain ⟨keyword, name, opening, ctors, closing⟩ := e
  intro ls h
  obtain ⟨keyword', rest, rfl, rfl, hrest⟩ := Terminal.exists_cons_of_strip h
  obtain ⟨name', rest, rfl, rfl, hrest⟩ := Terminal.exists_cons_of_strip hrest
  obtain ⟨opening', rest, rfl, rfl, hrest⟩ := Terminal.exists_cons_of_strip hrest
  obtain ⟨inside, last, rfl, hinside, hlast⟩ := List.map_eq_append_iff.mp hrest
  -- between the braces stand constructors and nothing else
  obtain ⟨ctors', rfl, rfl⟩ := Lifts.flatMap (fun c _ => lifts_round c) inside hinside
  obtain ⟨closing', rfl, rfl⟩ := Terminal.exists_of_strip_singleton hlast
  exact ⟨⟨keyword', name', opening', ctors', closing'⟩, rfl, rfl⟩

/-- Bodies are lifted. What is inside them is balanced since its kinds are. -/
theorem BlockTree.lifts (b : BlockTree) : Lifts BlockTree.leaves (BlockTree.move .forget) b := by
  obtain ⟨opening, inside, balanced, closing⟩ := b
  intro ls h
  obtain ⟨opening', rest, rfl, rfl, hrest⟩ := Terminal.exists_cons_of_strip h
  obtain ⟨inside', last, rfl, rfl, hlast⟩ := List.map_eq_append_iff.mp hrest
  obtain ⟨closing', rfl, rfl⟩ := Terminal.exists_of_strip_singleton hlast
  rw [Leaf.map_kind_map_move] at balanced
  exact ⟨⟨opening', inside', balanced, closing'⟩, rfl, rfl⟩

/-- Arms are lifted. -/
theorem ArmTree.lifts (a : ArmTree) : Lifts ArmTree.leaves (ArmTree.move .forget) a := by
  obtain ⟨pattern, arrow, body, commas⟩ := a
  intro ls h
  -- pattern, arrow and body take their leaves from the front, commas take the rest
  obtain ⟨front, back, rfl, hfront, hback⟩ := List.map_eq_append_iff.mp h
  obtain ⟨first, rest, rfl, hfirst, hrest⟩ := List.map_eq_append_iff.mp hfront
  obtain ⟨pattern', rfl, rfl⟩ := pattern.lifts first hfirst
  obtain ⟨arrow', rest, rfl, rfl, hbody⟩ := Terminal.exists_cons_of_strip hrest
  obtain ⟨body', rfl, rfl⟩ := body.lifts rest hbody
  obtain ⟨commas', rfl, rfl⟩ := Terminal.lifts_map commas back hback
  exact ⟨⟨pattern', arrow', body', commas'⟩, rfl, rfl⟩

/-- Matches are lifted. -/
theorem MatchTree.lifts (m : MatchTree) : Lifts MatchTree.leaves (MatchTree.move .forget) m := by
  obtain ⟨keyword, scrutinee, opening, arms, closing⟩ := m
  intro ls h
  obtain ⟨keyword', rest, rfl, rfl, hrest⟩ := Terminal.exists_cons_of_strip h
  obtain ⟨front, back, rfl, hfront, hback⟩ := List.map_eq_append_iff.mp hrest
  obtain ⟨scrutinee', rfl, rfl⟩ := scrutinee.lifts front hfront
  obtain ⟨opening', rest, rfl, rfl, hinner⟩ := Terminal.exists_cons_of_strip hback
  obtain ⟨inside, last, rfl, hinside, hlast⟩ := List.map_eq_append_iff.mp hinner
  -- between the braces stand arms and nothing else
  obtain ⟨arms', rfl, rfl⟩ := Lifts.flatMap (fun a _ => a.lifts) inside hinside
  obtain ⟨closing', rfl, rfl⟩ := Terminal.exists_of_strip_singleton hlast
  exact ⟨⟨keyword', scrutinee', opening', arms', closing'⟩, rfl, rfl⟩

/-- **Items are lifted.** -/
theorem ItemTree.lifts (i : ItemTree) : Lifts ItemTree.leaves (ItemTree.move .forget) i := by
  intro ls h
  cases i with
  | enumDecl e =>
    obtain ⟨e', rfl, rfl⟩ := e.lifts ls h
    exact ⟨.enumDecl e', rfl, rfl⟩
  | matchExpr m =>
    obtain ⟨m', rfl, rfl⟩ := m.lifts ls h
    exact ⟨.matchExpr m', rfl, rfl⟩

/-! ### Derivations and outlines -/

/-- The leaves of moved trees are their leaves, moved. -/
theorem ItemTree.flatMap_leaves_map_move (items : List ItemTree) :
    (items.map (ItemTree.move g)).flatMap ItemTree.leaves =
      (items.flatMap ItemTree.leaves).map (Leaf.move g) := by
  simp [List.flatMap_map, List.map_flatMap]

/-- The program of moved trees is the moved program. -/
theorem ItemTree.move_program (items : List ItemTree) :
    Program.move id ⟨(items.map (ItemTree.move g)).map ItemTree.item⟩ =
      Program.move g ⟨items.map ItemTree.item⟩ := by
  simp [Program.move, ItemTree.item_move]

variable {ls : List Leaf} {items : List ItemTree}

/-- **One outline, one tree.** Whatever trees have the outline of leaves, the leaves have no other
trees, up to places. -/
theorem Derivation.map_strip_items (d : Derivation ls)
    (h : ls.map Leaf.strip = (items.flatMap ItemTree.leaves).map Leaf.strip) :
    d.items.map (ItemTree.move .forget) = items.map (ItemTree.move .forget) := by
  -- the stripped trees have the same leaves, so unambiguity makes them equal
  apply ItemTree.eq_of_flatMap_leaves_eq
  rw [ItemTree.flatMap_leaves_map_move, ItemTree.flatMap_leaves_map_move, d.leaves_eq, h]

/-- Trees that are equal up to places are valid together. -/
theorem ItemTree.forall_valid_iff_of_map_strip {items' : List ItemTree}
    (h : items.map (ItemTree.move .forget) = items'.map (ItemTree.move .forget)) :
    (∀ i ∈ items, i.Valid) ↔ ∀ i ∈ items', i.Valid := by
  have hmoved : ∀ is : List ItemTree, (∀ i ∈ is, i.Valid) ↔
      ∀ i ∈ is.map (ItemTree.move .forget), i.Valid := by
    intro is
    simp [ItemTree.valid_move_iff]
  rw [hmoved items, h, ← hmoved items']

/-- **A text can be read exactly if its outline can be.** -/
theorem Derivation.nonempty_iff
    (h : ls.map Leaf.strip = (items.flatMap ItemTree.leaves).map Leaf.strip) :
    Nonempty (Derivation ls) ↔ ∀ i ∈ items, i.Valid := by
  constructor
  · rintro ⟨d⟩
    exact (ItemTree.forall_valid_iff_of_map_strip (d.map_strip_items h)).mp d.valid
  · intro hvalid
    -- the trees of the outline are lifted to trees of the leaves
    rw [← ItemTree.flatMap_leaves_map_move] at h
    obtain ⟨items', rfl, hitems⟩ := Lifts.flatMap (fun i _ => i.lifts) ls h
    exact ⟨items', (ItemTree.forall_valid_iff_of_map_strip hitems).mpr hvalid, rfl⟩

/-- The program of a text is known from any trees with its outline, up to places. -/
theorem Derivation.erase_program (d : Derivation ls)
    (h : ls.map Leaf.strip = (items.flatMap ItemTree.leaves).map Leaf.strip) :
    d.program.erase = Program.erase ⟨items.map ItemTree.item⟩ := by
  unfold Program.erase Derivation.program
  rw [← ItemTree.move_program, d.map_strip_items h, ItemTree.move_program]

/-! ### Leaves at new places -/

/-- Leaves keep their order when they are moved. -/
def Leaf.OrderKept (ls : List Leaf) : Prop :=
  ∀ l ∈ ls, ∀ m ∈ ls, (g l.span).start.offset ≤ (g m.span).start.offset ↔
    l.span.start.offset ≤ m.span.start.offset

/-- Leaves that strip to the same leaf are the same once they are put at the same place. -/
theorem Leaf.move_eq_move {f : Span → Span} {l m : Leaf} (h : l.strip = m.strip)
    (hspan : f l.span = g m.span) : l.move f = m.move g := by
  injection h with htoken hline
  injection htoken with hkind htext
  unfold move
  rw [hline, hkind, htext, hspan]

/-- Of two texts with one outline, each is the other one moved, and the leaves keep their order. -/
theorem Leaf.exists_move {ms : List Leaf} (hls : Ascending ls) (hms : Ascending ms)
    (h : ls.map strip = ms.map strip) :
    ∃ g, ls.map (move g) = ms.map (move id) ∧ OrderKept g ls := by
  induction ls generalizing ms with
  | nil =>
    obtain rfl := List.map_eq_nil_iff.mp h.symm
    exact ⟨id, rfl, List.forall_mem_nil _⟩
  | cons l ls ih =>
    -- the move is made leaf by leaf: each goes to the span of its partner
    obtain ⟨m, ms, rfl⟩ : ∃ m ms', ms = m :: ms' := by
      cases ms with
      | nil => cases h
      | cons m ms => exact ⟨m, ms, rfl⟩
    obtain ⟨hl, hls⟩ := List.pairwise_cons.mp hls
    obtain ⟨hm, hms⟩ := List.pairwise_cons.mp hms
    obtain ⟨hhead, htail⟩ := List.cons.inj h
    obtain ⟨g, hmove, horder⟩ := ih hls hms htail
    -- the later leaves begin elsewhere, so the first one can be moved without them
    have hother : ∀ x ∈ ls, Function.update g l.span m.span x.span = g x.span := by
      intro x hx
      refine Function.update_of_ne (fun heq => ?_) _ _
      have := hl x hx
      rw [heq] at this
      exact Nat.lt_irrefl _ this
    -- where the later leaves go, their partners stand, which are behind the first partner
    have hbehind : ∀ x ∈ ls, m.span.start.offset < (g x.span).start.offset := by
      intro x hx
      have hmem : x.move g ∈ ms.map (move id) := hmove ▸ List.mem_map_of_mem hx
      obtain ⟨y, hy, heq⟩ := List.mem_map.mp hmem
      have hspan : y.span = g x.span := congrArg Leaf.span heq
      exact hspan ▸ hm y hy
    have hfirst : Function.update g l.span m.span l.span = m.span := Function.update_self ..
    refine ⟨Function.update g l.span m.span, ?_, ?_⟩
    · rw [List.map_cons, List.map_cons, move_eq_move id hhead hfirst, ← hmove]
      congr 1
      refine List.map_congr_left fun x hx => ?_
      unfold move
      rw [hother x hx]
    · intro x hx y hy
      -- the first leaf is in front of the others on both sides
      rcases List.mem_cons.mp hx with rfl | hxs <;> rcases List.mem_cons.mp hy with rfl | hys
      · exact iff_of_true (Nat.le_refl _) (Nat.le_refl _)
      · rw [hfirst, hother y hys]
        exact iff_of_true (hbehind y hys).le (hl y hys).le
      · rw [hfirst, hother x hxs]
        exact iff_of_false (hbehind x hxs).not_ge (hl x hxs).not_ge
      · rw [hother x hxs, hother y hys]
        exact horder x hxs y hys

/-- Of two lists of trees with one outline, each is the other one moved, and the leaves keep their
order. -/
theorem ItemTree.exists_move {items' : List ItemTree}
    (hold : Leaf.Ascending (items.flatMap leaves)) (hnew : Leaf.Ascending (items'.flatMap leaves))
    (h : items.map (move .forget) = items'.map (move .forget)) :
    ∃ g, items.map (move g) = items'.map (move id) ∧ Leaf.OrderKept g (items.flatMap leaves) := by
  have hleaves :
      (items.flatMap leaves).map Leaf.strip = (items'.flatMap leaves).map Leaf.strip := by
    rw [← flatMap_leaves_map_move, ← flatMap_leaves_map_move, h]
  obtain ⟨g, hmove, horder⟩ := Leaf.exists_move hold hnew hleaves
  -- trees with the same leaves are the same
  refine ⟨g, eq_of_flatMap_leaves_eq ?_, horder⟩
  rw [flatMap_leaves_map_move, flatMap_leaves_map_move, hmove]

end MatchCheck
