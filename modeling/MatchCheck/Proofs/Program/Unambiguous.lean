import MatchCheck.Proofs.Program.Tree

/-!
# The grammar is unambiguous

A tree is determined by its leaves, valid or not. The statement that goes through the grammar is
about prefixes: two trees whose leaves begin the same list of leaves are the same tree. What follows
matters in two places. A name is a whole term only if no opening parenthesis follows, and the commas
behind an arm are all of them only if no further comma follows.
-/

namespace MatchCheck

/-- Leaves that do not begin with a leaf of kind `k`. -/
def BeginsNot (k : TokenKind) (ls : List Leaf) : Prop :=
  ∀ l ∈ ls.head?, l.kind ≠ k

/-- Leaves that begin with a leaf of one kind do not begin with one of another. -/
theorem Terminal.beginsNot {k k' : TokenKind} (t : Terminal k) (h : k ≠ k') (ls : List Leaf) :
    BeginsNot k' (t.leaf :: ls) := by
  intro l hl
  cases hl
  rw [t.kind_eq]
  exact h

theorem not_beginsNot {k : TokenKind} {t : Terminal k} {ls : List Leaf} :
    ¬ BeginsNot k (t.leaf :: ls) :=
  fun h => h t.leaf rfl t.kind_eq

/-- Two leaves of one kind in front of the same leaves. -/
theorem Terminal.cons_inj {k : TokenKind} {t u : Terminal k} {ls ms : List Leaf}
    (h : t.leaf :: ls = u.leaf :: ms) : t = u ∧ ls = ms :=
  ⟨eq_of_leaf_eq (List.cons.inj h).1, (List.cons.inj h).2⟩

/-- Leaves that begin with leaves of different kinds are different. -/
theorem Terminal.cons_ne {k k' : TokenKind} {t : Terminal k} {u : Terminal k'} (hk : k ≠ k')
    {ls ms : List Leaf} : t.leaf :: ls ≠ u.leaf :: ms :=
  fun h => leaf_ne hk (List.cons.inj h).1

/-! ### Terms -/

/-- Behind an argument comes a comma or the closing parenthesis, and never an opening one. -/
theorem MoreArgs.beginsNot_append {s : TermSort} (m : MoreArgs s) (closing : Terminal .rightParen)
    (ls : List Leaf) : BeginsNot .leftParen (m.leaves ++ closing.leaf :: ls) := by
  cases m with
  | nil => exact closing.beginsNot (by decide) ls
  | cons comma arg others => exact comma.beginsNot (by decide) _

/-- A term begins with a name, or it is an underscore alone. -/
theorem TermTree.exists_leaves_eq_cons {s : TermSort} (t : TermTree s) :
    (∃ head : Terminal .ident, ∃ ls, t.leaves = head.leaf :: ls) ∨
      ∃ underscore : Terminal .underscore, t.leaves = [underscore.leaf] := by
  cases t with
  | wildcard underscore => exact .inr ⟨underscore, rfl⟩
  | name head => exact .inl ⟨head, [], rfl⟩
  | call head opening args closing => exact .inl ⟨head, _, rfl⟩

/-- A term begins with nothing else. -/
theorem TermTree.beginsNot_append {s : TermSort} (t : TermTree s) {k : TokenKind}
    (hident : k ≠ .ident) (hunderscore : k ≠ .underscore) (ls : List Leaf) :
    BeginsNot k (t.leaves ++ ls) := by
  rcases t.exists_leaves_eq_cons with ⟨head, ms, h⟩ | ⟨underscore, h⟩
  · rw [h]
    exact head.beginsNot hident.symm _
  · rw [h]
    exact underscore.beginsNot hunderscore.symm _

mutual

/-- **Terms.** If no opening parenthesis follows, the leaves tell where a term ends and which it is.
-/
theorem TermTree.eq_of_append {s : TermSort} :
    ∀ (t u : TermTree s) {ls ms : List Leaf}, BeginsNot .leftParen ls → BeginsNot .leftParen ms →
      t.leaves ++ ls = u.leaves ++ ms → t = u ∧ ls = ms
  | .wildcard _, .wildcard _, _, _, _, _, h => by
    obtain ⟨rfl, rfl⟩ := Terminal.cons_inj h
    exact ⟨rfl, rfl⟩
  -- the first leaf tells a wildcard from a name
  | .wildcard _, .name _, _, _, _, _, h => absurd h (Terminal.cons_ne (by decide))
  | .wildcard _, .call .., _, _, _, _, h => absurd h (Terminal.cons_ne (by decide))
  | .name _, .wildcard _, _, _, _, _, h => absurd h (Terminal.cons_ne (by decide))
  | .call .., .wildcard _, _, _, _, _, h => absurd h (Terminal.cons_ne (by decide))
  | .name _, .name _, _, _, _, _, h => by
    obtain ⟨rfl, rfl⟩ := Terminal.cons_inj h
    exact ⟨rfl, rfl⟩
  | .name _, .call .., _, _, hls, _, h => by
    -- the parenthesis that opens the arguments would follow the name alone
    obtain ⟨-, rfl⟩ := Terminal.cons_inj h
    exact absurd hls not_beginsNot
  | .call .., .name _, _, _, _, hms, h => by
    obtain ⟨-, rfl⟩ := Terminal.cons_inj h
    exact absurd hms not_beginsNot
  | .call head opening args closing, .call head' opening' args' closing', ls, ms, _, _, h => by
    -- both have arguments, up to the parenthesis that closes them
    simp only [TermTree.leaves, List.append_assoc, List.cons_append, List.nil_append] at h
    obtain ⟨rfl, hopening⟩ := Terminal.cons_inj h
    obtain ⟨rfl, hargs⟩ := Terminal.cons_inj hopening
    obtain ⟨rfl, rfl, rfl⟩ := ArgsTree.eq_of_append args args' hargs
    exact ⟨rfl, rfl⟩

/-- **Arguments.** The closing parenthesis tells where a list of arguments ends. -/
theorem ArgsTree.eq_of_append {s : TermSort} :
    ∀ (a b : ArgsTree s) {c d : Terminal .rightParen} {ls ms : List Leaf},
      a.leaves ++ c.leaf :: ls = b.leaves ++ d.leaf :: ms → a = b ∧ c = d ∧ ls = ms
  | .none, .none, _, _, _, _, h => by
    obtain ⟨rfl, rfl⟩ := Terminal.cons_inj h
    exact ⟨rfl, rfl, rfl⟩
  | .none, .some first others, c, d, ls, ms, h => by
    -- an argument would begin with the parenthesis that closes the empty list
    simp only [ArgsTree.leaves, List.append_assoc, List.nil_append] at h
    have hfirst := first.beginsNot_append (k := .rightParen) (by decide) (by decide)
      (others.leaves ++ d.leaf :: ms)
    rw [← h] at hfirst
    exact absurd hfirst not_beginsNot
  | .some first others, .none, c, d, ls, ms, h => by
    simp only [ArgsTree.leaves, List.append_assoc, List.nil_append] at h
    have hfirst := first.beginsNot_append (k := .rightParen) (by decide) (by decide)
      (others.leaves ++ c.leaf :: ls)
    rw [h] at hfirst
    exact absurd hfirst not_beginsNot
  | .some first others, .some first' others', c, d, ls, ms, h => by
    -- behind the first argument no parenthesis opens, so it ends at the same leaf in both
    simp only [ArgsTree.leaves, List.append_assoc] at h
    obtain ⟨rfl, hothers⟩ := TermTree.eq_of_append first first' (others.beginsNot_append c ls)
      (others'.beginsNot_append d ms) h
    obtain ⟨rfl, rfl, rfl⟩ := MoreArgs.eq_of_append others others' hothers
    exact ⟨rfl, rfl, rfl⟩

/-- **Further arguments.** Each begins with its comma, and the closing parenthesis is none. -/
theorem MoreArgs.eq_of_append {s : TermSort} :
    ∀ (a b : MoreArgs s) {c d : Terminal .rightParen} {ls ms : List Leaf},
      a.leaves ++ c.leaf :: ls = b.leaves ++ d.leaf :: ms → a = b ∧ c = d ∧ ls = ms
  | .nil, .nil, _, _, _, _, h => by
    obtain ⟨rfl, rfl⟩ := Terminal.cons_inj h
    exact ⟨rfl, rfl, rfl⟩
  -- one list goes on with a comma where the other one is closed
  | .nil, .cons .., _, _, _, _, h => absurd h (Terminal.cons_ne (by decide))
  | .cons .., .nil, _, _, _, _, h => absurd h (Terminal.cons_ne (by decide))
  | .cons comma arg others, .cons comma' arg' others', c, d, ls, ms, h => by
    simp only [MoreArgs.leaves, List.append_assoc, List.cons_append] at h
    obtain ⟨rfl, harg⟩ := Terminal.cons_inj h
    obtain ⟨rfl, hothers⟩ := TermTree.eq_of_append arg arg' (others.beginsNot_append c ls)
      (others'.beginsNot_append d ms) harg
    obtain ⟨rfl, rfl, rfl⟩ := MoreArgs.eq_of_append others others' hothers
    exact ⟨rfl, rfl, rfl⟩

end

/-! ### Declarations -/

/-- Terminals of one kind are all that stand in front of a leaf of another kind. -/
theorem Terminal.eq_of_map_append {k : TokenKind} :
    ∀ (ts us : List (Terminal k)) {ls ms : List Leaf}, BeginsNot k ls → BeginsNot k ms →
      ts.map Terminal.leaf ++ ls = us.map Terminal.leaf ++ ms → ts = us ∧ ls = ms
  | [], [], _, _, _, _, h => ⟨rfl, h⟩
  -- one list goes on where something of another kind follows the other
  | [], u :: us, _, _, hls, _, h => by
    rw [List.map_nil, List.nil_append] at h
    exact absurd (h ▸ hls) not_beginsNot
  | t :: ts, [], _, _, _, hms, h => by
    rw [List.map_nil, List.nil_append] at h
    exact absurd (h ▸ hms) not_beginsNot
  | t :: ts, u :: us, _, _, hls, hms, h => by
    obtain ⟨rfl, hrest⟩ := Terminal.cons_inj h
    obtain ⟨rfl, rfl⟩ := Terminal.eq_of_map_append ts us hls hms hrest
    exact ⟨rfl, rfl⟩

theorem Terminal.optional_eq_map {k : TokenKind} (t? : Option (Terminal k)) :
    optional t? = t?.toList.map Terminal.leaf := by
  cases t? <;> rfl

theorem Terminal.eq_of_optional_append {k : TokenKind} {t? u? : Option (Terminal k)}
    {ls ms : List Leaf} (hls : BeginsNot k ls) (hms : BeginsNot k ms)
    (h : optional t? ++ ls = optional u? ++ ms) : t? = u? ∧ ls = ms := by
  rw [optional_eq_map, optional_eq_map] at h
  obtain ⟨htoList, hrest⟩ := eq_of_map_append t?.toList u?.toList hls hms h
  refine ⟨?_, hrest⟩
  cases t? <;> cases u? <;> simp_all

/-- **Fields.** A field ends with its closing parenthesis. -/
theorem FieldTree.eq_of_append {f g : FieldTree} {ls ms : List Leaf}
    (h : f.leaves ++ ls = g.leaves ++ ms) : f = g ∧ ls = ms := by
  obtain ⟨opening, field, closing⟩ := f
  obtain ⟨opening', field', closing'⟩ := g
  -- the leaf behind the opening parenthesis tells whether there is a field
  rcases field with _ | ⟨type, comma?⟩ <;> rcases field' with _ | ⟨type', comma'?⟩ <;>
    simp only [leaves, inside, List.append_assoc, List.cons_append, List.nil_append] at h <;>
    obtain ⟨rfl, hinside⟩ := Terminal.cons_inj h
  · obtain ⟨rfl, rfl⟩ := Terminal.cons_inj hinside
    exact ⟨rfl, rfl⟩
  · exact absurd hinside (Terminal.cons_ne (by decide))
  · exact absurd hinside (Terminal.cons_ne (by decide))
  · -- the comma behind the type may be missing in both, but not in one of them alone
    obtain ⟨rfl, hcomma⟩ := Terminal.cons_inj hinside
    obtain ⟨rfl, hclosing⟩ := Terminal.eq_of_optional_append (closing.beginsNot (by decide) ls)
      (closing'.beginsNot (by decide) ms) hcomma
    obtain ⟨rfl, rfl⟩ := Terminal.cons_inj hclosing
    exact ⟨rfl, rfl⟩

theorem FieldTree.not_beginsNot_append (f : FieldTree) (ls : List Leaf) :
    ¬ BeginsNot .leftParen (f.leaves ++ ls) :=
  not_beginsNot

/-- **Constructors.** If no opening parenthesis follows, the leaves tell whether there is a field.
-/
theorem CtorTree.eq_of_append {c d : CtorTree} {ls ms : List Leaf}
    (hls : BeginsNot .leftParen ls) (hms : BeginsNot .leftParen ms)
    (h : c.leaves ++ ls = d.leaves ++ ms) : c = d ∧ ls = ms := by
  obtain ⟨name, fields⟩ := c
  obtain ⟨name', fields'⟩ := d
  rcases fields with _ | f <;> rcases fields' with _ | g <;>
    simp only [leaves, List.cons_append, List.nil_append] at h <;>
    obtain ⟨rfl, hfields⟩ := Terminal.cons_inj h
  · exact ⟨rfl, hfields⟩
  · -- a field on one side would begin what follows the name on the other
    exact absurd (hfields ▸ hls) (g.not_beginsNot_append ms)
  · exact absurd (hfields ▸ hms) (f.not_beginsNot_append ls)
  · obtain ⟨rfl, rfl⟩ := FieldTree.eq_of_append hfields
    exact ⟨rfl, rfl⟩

theorem CtorTree.leaves_eq_cons (c : CtorTree) : ∃ ls, c.leaves = c.name.leaf :: ls := by
  obtain ⟨name, fields⟩ := c
  cases fields with
  | none => exact ⟨[], rfl⟩
  | some f => exact ⟨f.leaves, rfl⟩

theorem CtorTree.leaves_ne_nil (c : CtorTree) : c.leaves ≠ [] := by
  obtain ⟨ls, h⟩ := c.leaves_eq_cons
  rw [h]
  exact List.cons_ne_nil _ _

/-- A constructor begins with nothing but a name. -/
theorem CtorTree.beginsNot_append (c : CtorTree) {k : TokenKind} (hk : k ≠ .ident)
    (ls : List Leaf) : BeginsNot k (c.leaves ++ ls) := by
  obtain ⟨ms, h⟩ := c.leaves_eq_cons
  rw [h]
  exact c.name.beginsNot hk.symm _

namespace EnumTree

/-- Inside a declaration comes a name or the closing brace. -/
theorem beginsNot_ctorLeaves_append {k : TokenKind} (hident : k ≠ .ident) (hclose : k ≠ .rightBrace)
    (ctors : List (CtorTree × Option (Terminal .comma))) (closing : Terminal .rightBrace)
    (ls : List Leaf) : BeginsNot k (ctorLeaves ctors ++ closing.leaf :: ls) := by
  cases ctors with
  | nil => exact closing.beginsNot hclose.symm ls
  | cons c ctors =>
    simp only [ctorLeaves, List.flatMap_cons, roundLeaves, List.append_assoc]
    exact c.1.beginsNot_append hident _

/-- A comma that may be missing changes nothing for the other kinds. -/
theorem beginsNot_optional_append {k : TokenKind} {comma? : Option (Terminal .comma)}
    {ls : List Leaf} (hcomma : k ≠ .comma) (hls : BeginsNot k ls) :
    BeginsNot k (Terminal.optional comma? ++ ls) := by
  cases comma? with
  | none => exact hls
  | some comma => exact comma.beginsNot hcomma.symm ls

/-- **Constructors of a declaration.** The closing brace tells where they end. -/
theorem eq_of_ctorLeaves_append :
    ∀ (cs ds : List (CtorTree × Option (Terminal .comma))) {c d : Terminal .rightBrace}
      {ls ms : List Leaf}, ctorLeaves cs ++ c.leaf :: ls = ctorLeaves ds ++ d.leaf :: ms →
        cs = ds ∧ c = d ∧ ls = ms
  | [], [], _, _, _, _, h => by
    obtain ⟨rfl, rfl⟩ := Terminal.cons_inj h
    exact ⟨rfl, rfl, rfl⟩
  | [], (ctor, comma?) :: ds, c, d, ls, ms, h => by
    simp only [ctorLeaves, List.flatMap_cons, roundLeaves, List.append_assoc, List.flatMap_nil,
      List.nil_append] at h
    -- a constructor would begin with the brace that closes the other declaration
    have hfirst := ctor.beginsNot_append (k := .rightBrace) (by decide)
    exact absurd (h ▸ hfirst _) not_beginsNot
  | (ctor, comma?) :: cs, [], c, d, ls, ms, h => by
    simp only [ctorLeaves, List.flatMap_cons, roundLeaves, List.append_assoc, List.flatMap_nil,
      List.nil_append] at h
    have hfirst := ctor.beginsNot_append (k := .rightBrace) (by decide)
    exact absurd (h ▸ hfirst _) not_beginsNot
  | (ctor, comma?) :: cs, (ctor', comma'?) :: ds, c, d, ls, ms, h => by
    -- behind a constructor and its comma stands a name or the brace that closes the declaration
    have hfollow : ∀ (k : TokenKind) (hident : k ≠ .ident) (hclose : k ≠ .rightBrace),
        BeginsNot k (ctorLeaves cs ++ c.leaf :: ls) ∧ BeginsNot k (ctorLeaves ds ++ d.leaf :: ms) :=
      fun k hident hclose => ⟨beginsNot_ctorLeaves_append hident hclose cs c ls,
        beginsNot_ctorLeaves_append hident hclose ds d ms⟩
    obtain ⟨hparen, hparen'⟩ := hfollow .leftParen (by decide) (by decide)
    obtain ⟨hcomma, hcomma'⟩ := hfollow .comma (by decide) (by decide)
    simp only [ctorLeaves, List.flatMap_cons, roundLeaves, List.append_assoc] at h
    obtain ⟨rfl, hdivider⟩ := CtorTree.eq_of_append
      (beginsNot_optional_append (by decide) hparen)
      (beginsNot_optional_append (by decide) hparen') h
    obtain ⟨rfl, hrest⟩ := Terminal.eq_of_optional_append hcomma hcomma' hdivider
    obtain ⟨rfl, rfl, rfl⟩ := eq_of_ctorLeaves_append cs ds hrest
    exact ⟨rfl, rfl, rfl⟩

/-- **Declarations.** The keyword, the name and the brace are read off one by one. -/
theorem eq_of_append {e f : EnumTree} {ls ms : List Leaf} (h : e.leaves ++ ls = f.leaves ++ ms) :
    e = f ∧ ls = ms := by
  obtain ⟨keyword, name, opening, ctors, closing⟩ := e
  obtain ⟨keyword', name', opening', ctors', closing'⟩ := f
  -- keyword, name and brace are leaves of their own; the constructors end where the closing brace
  -- stands
  simp only [leaves, List.append_assoc, List.cons_append, List.nil_append] at h
  obtain ⟨rfl, hname⟩ := Terminal.cons_inj h
  obtain ⟨rfl, hopening⟩ := Terminal.cons_inj hname
  obtain ⟨rfl, hctors⟩ := Terminal.cons_inj hopening
  obtain ⟨rfl, rfl, rfl⟩ := eq_of_ctorLeaves_append ctors ctors' hctors
  exact ⟨rfl, rfl⟩

end EnumTree

/-! ### Matches -/

/-- The brace that closes a block is the first one that has no partner. -/
theorem Balanced.eq_of_append {ks ks' : List TokenKind} (h : Balanced ks) (h' : Balanced ks')
    {rest rest' : List TokenKind}
    (heq : ks ++ .rightBrace :: rest = ks' ++ .rightBrace :: rest') : ks = ks' ∧ rest = rest' := by
  -- In each case the first kind says by which rule the other list is balanced.
  induction h generalizing ks' rest rest' with
  | nil =>
    cases h' with
    | nil => exact ⟨rfl, (List.cons.inj heq).2⟩
    | plain _ hright => exact absurd (List.cons.inj heq).1.symm hright
    | braces => cases (List.cons.inj heq).1
  | plain hleft hright _ ih =>
    cases h' with
    | nil => exact absurd (List.cons.inj heq).1 hright
    | plain _ _ hks' =>
      obtain ⟨rfl, htail⟩ := List.cons.inj heq
      obtain ⟨rfl, rfl⟩ := ih hks' htail
      exact ⟨rfl, rfl⟩
    | braces => exact absurd (List.cons.inj heq).1 hleft
  | braces _ _ ih ih' =>
    cases h' with
    | nil => cases (List.cons.inj heq).1
    | plain hleft => exact absurd (List.cons.inj heq).1.symm hleft
    | braces hinner houter =>
      have htail := (List.cons.inj heq).2
      simp only [List.append_eq, List.append_assoc, List.cons_append] at htail
      obtain ⟨rfl, hbehind⟩ := ih hinner htail
      obtain ⟨rfl, rfl⟩ := ih' houter hbehind
      exact ⟨rfl, rfl⟩

/-- **Blocks.** A block ends with the brace that closes it, whatever is inside. -/
theorem BlockTree.eq_of_append {b c : BlockTree} {ls ms : List Leaf}
    (h : b.leaves ++ ls = c.leaves ++ ms) : b = c ∧ ls = ms := by
  obtain ⟨opening, inside, balanced, closing⟩ := b
  obtain ⟨opening', inside', balanced', closing'⟩ := c
  simp only [leaves, List.append_assoc, List.cons_append, List.nil_append] at h
  obtain ⟨rfl, hinside⟩ := Terminal.cons_inj h
  -- Braces are counted by kinds, which say how long the inside is.
  have hkinds := congrArg (List.map Leaf.kind) hinside
  simp only [List.map_append, List.map_cons, closing.kind_eq, closing'.kind_eq] at hkinds
  have hlength := congrArg List.length (balanced.eq_of_append balanced' hkinds).1
  rw [List.length_map, List.length_map] at hlength
  obtain ⟨rfl, hclosing⟩ := List.append_inj hinside hlength
  obtain ⟨rfl, rfl⟩ := Terminal.cons_inj hclosing
  exact ⟨rfl, rfl⟩

/-- **Arms.** If no comma follows, the leaves tell how many commas belong to an arm. -/
theorem ArmTree.eq_of_append {a b : ArmTree} {ls ms : List Leaf} (hls : BeginsNot .comma ls)
    (hms : BeginsNot .comma ms) (h : a.leaves ++ ls = b.leaves ++ ms) : a = b ∧ ls = ms := by
  obtain ⟨pattern, arrow, body, commas⟩ := a
  obtain ⟨pattern', arrow', body', commas'⟩ := b
  simp only [leaves, armLeaves, List.append_assoc, List.cons_append] at h
  -- the arrow behind the pattern is no opening parenthesis
  obtain ⟨rfl, harrow⟩ := TermTree.eq_of_append pattern pattern'
    (arrow.beginsNot (by decide) _) (arrow'.beginsNot (by decide) _) h
  obtain ⟨rfl, hbody⟩ := Terminal.cons_inj harrow
  obtain ⟨rfl, hcommas⟩ := BlockTree.eq_of_append hbody
  obtain ⟨rfl, rfl⟩ := Terminal.eq_of_map_append commas commas' hls hms hcommas
  exact ⟨rfl, rfl⟩

namespace MatchTree

/-- Inside a match comes the first leaf of a pattern or the closing brace. -/
theorem beginsNot_arms_append {k : TokenKind} (hident : k ≠ .ident) (hunderscore : k ≠ .underscore)
    (hclose : k ≠ .rightBrace) (arms : List ArmTree) (closing : Terminal .rightBrace)
    (ls : List Leaf) : BeginsNot k (arms.flatMap ArmTree.leaves ++ closing.leaf :: ls) := by
  cases arms with
  | nil => exact closing.beginsNot hclose.symm ls
  | cons a arms =>
    simp only [List.flatMap_cons, ArmTree.leaves, ArmTree.armLeaves, List.append_assoc]
    exact a.pattern.beginsNot_append hident hunderscore _

/-- **Arms of a match.** The closing brace tells where they end. -/
theorem eq_of_arms_append :
    ∀ (as bs : List ArmTree) {c d : Terminal .rightBrace} {ls ms : List Leaf},
      as.flatMap ArmTree.leaves ++ c.leaf :: ls = bs.flatMap ArmTree.leaves ++ d.leaf :: ms →
        as = bs ∧ c = d ∧ ls = ms
  | [], [], _, _, _, _, h => by
    obtain ⟨rfl, rfl⟩ := Terminal.cons_inj h
    exact ⟨rfl, rfl, rfl⟩
  | [], b :: bs, c, d, ls, ms, h => by
    simp only [List.flatMap_cons, ArmTree.leaves, ArmTree.armLeaves, List.append_assoc,
      List.flatMap_nil, List.nil_append] at h
    have hfirst := b.pattern.beginsNot_append (k := .rightBrace) (by decide) (by decide)
    exact absurd (h ▸ hfirst _) not_beginsNot
  | a :: as, [], c, d, ls, ms, h => by
    simp only [List.flatMap_cons, ArmTree.leaves, ArmTree.armLeaves, List.append_assoc,
      List.flatMap_nil, List.nil_append] at h
    have hfirst := a.pattern.beginsNot_append (k := .rightBrace) (by decide) (by decide)
    exact absurd (h ▸ hfirst _) not_beginsNot
  | a :: as, b :: bs, c, d, ls, ms, h => by
    simp only [List.flatMap_cons, List.append_assoc] at h
    -- behind an arm with its commas comes no further comma
    obtain ⟨rfl, hrest⟩ := ArmTree.eq_of_append
      (beginsNot_arms_append (by decide) (by decide) (by decide) as c ls)
      (beginsNot_arms_append (by decide) (by decide) (by decide) bs d ms) h
    obtain ⟨rfl, rfl, rfl⟩ := eq_of_arms_append as bs hrest
    exact ⟨rfl, rfl, rfl⟩

/-- **Matches.** What is matched ends where the brace opens. -/
theorem eq_of_append {m n : MatchTree} {ls ms : List Leaf} (h : m.leaves ++ ls = n.leaves ++ ms) :
    m = n ∧ ls = ms := by
  obtain ⟨keyword, scrutinee, opening, arms, closing⟩ := m
  obtain ⟨keyword', scrutinee', opening', arms', closing'⟩ := n
  -- the expression ends in front of the brace, with which no argument list begins
  simp only [leaves, List.append_assoc, List.cons_append, List.nil_append] at h
  obtain ⟨rfl, hscrutinee⟩ := Terminal.cons_inj h
  obtain ⟨rfl, hopening⟩ := TermTree.eq_of_append scrutinee scrutinee'
    (opening.beginsNot (by decide) _) (opening'.beginsNot (by decide) _) hscrutinee
  obtain ⟨rfl, harms⟩ := Terminal.cons_inj hopening
  obtain ⟨rfl, rfl, rfl⟩ := eq_of_arms_append arms arms' harms
  exact ⟨rfl, rfl⟩

end MatchTree

/-! ### Items -/

namespace ItemTree

/-- **Items.** The keyword tells a declaration from a match. -/
theorem eq_of_append {i j : ItemTree} {ls ms : List Leaf} (h : i.leaves ++ ls = j.leaves ++ ms) :
    i = j ∧ ls = ms := by
  -- the two kinds of items begin with different keywords
  cases i with
  | enumDecl e =>
    cases j with
    | enumDecl f =>
      obtain ⟨rfl, hrest⟩ := EnumTree.eq_of_append h
      exact ⟨rfl, hrest⟩
    | matchExpr n => exact absurd h (Terminal.cons_ne (by decide))
  | matchExpr m =>
    cases j with
    | enumDecl f => exact absurd h (Terminal.cons_ne (by decide))
    | matchExpr n =>
      obtain ⟨rfl, hrest⟩ := MatchTree.eq_of_append h
      exact ⟨rfl, hrest⟩

theorem leaves_ne_nil (i : ItemTree) : i.leaves ≠ [] := by
  cases i <;> exact List.cons_ne_nil _ _

/-- **Unambiguity.** Trees that derive the same leaves are the same trees. -/
theorem eq_of_flatMap_leaves_eq {is js : List ItemTree}
    (h : is.flatMap leaves = js.flatMap leaves) : is = js := by
  -- no item is without leaves, so both lists end together
  induction is generalizing js with
  | nil =>
    cases js with
    | nil => rfl
    | cons j js =>
      have := (List.append_eq_nil_iff.mp h.symm).1
      exact absurd this j.leaves_ne_nil
  | cons i is ih =>
    cases js with
    | nil =>
      have := (List.append_eq_nil_iff.mp h).1
      exact absurd this i.leaves_ne_nil
    | cons j js =>
      obtain ⟨rfl, hrest⟩ := eq_of_append h
      rw [ih hrest]

end ItemTree

/-- Leaves have one derivation at most. -/
instance (ls : List Leaf) : Subsingleton (Derivation ls) where
  allEq d e := by
    obtain ⟨items, valid, hleaves⟩ := d
    obtain ⟨items', valid', hleaves'⟩ := e
    obtain rfl := ItemTree.eq_of_flatMap_leaves_eq (hleaves.trans hleaves'.symm)
    rfl

end MatchCheck
