import MatchCheck.Check.Basic
import MatchCheck.Proofs.Coverage.Missing
import MatchCheck.Proofs.Program.Outline
import MatchCheck.Proofs.Program.Tree
import MatchCheck.Proofs.Value.Resolution

/-!
# Arms that are written for shapes

For every case that a match misses, a text is suggested that shall be read as an arm for it. This
module follows the text through the lexemes and the tree to the pattern, and back to the shape. Each
of these forms of a shape is a definition of its own (`Shape.lexemes`, `Shape.termTree`,
`Shape.pattern`), and each is the next one's reading.

The names in a shape have to be names: a constructor `enum` would be read as a keyword.
`Shape.Spelled` asks for this, and what is missing of a declared type has it, because its
constructors were read from a text.
-/

namespace MatchCheck

/-! ### Lexemes -/

/-- A text that is read as a name. -/
def IsName (name : String) : Prop :=
  Lexeme.Formed ⟨.ident, name.toList⟩

/-- A name has a first character, and it is one that words begin with. -/
theorem IsName.exists_eq_cons {name : String} (h : IsName name) :
    ∃ c cs, name.toList = c :: cs ∧ Lexeme.isWordStart c = true := by
  unfold IsName at h
  -- the lexeme has to be a variable for its formation to be inverted
  generalize hl : (⟨.ident, name.toList⟩ : Lexeme) = l at h
  cases h with
  | @word c cs hc _ => exact ⟨c, cs, congrArg Lexeme.text hl, hc⟩
  -- none of the marks is an identifier
  | mark h =>
    subst hl
    simp [Lexeme.marks] at h
  | _ => cases hl

/-- Words do not begin with blanks. -/
theorem Lexeme.not_isBlank_of_isWordStart {c : Char} (h : isWordStart c = true) :
    isBlank c = false := by
  cases hc : isBlank c with
  | false => rfl
  | true =>
    rw [isWordStart_eq_false_of_isBlank hc] at h
    cases h

/-- In front of a leaf everything is delimited. -/
theorem Lexeme.Delimited.append (xs : List Lexeme) {ys : List Lexeme} (hys : Delimited ys)
    (hleaf : ∃ m ∈ ys, m.kind.isTrivia = false) : Delimited (xs ++ ys) := by
  induction xs with
  | nil => exact hys
  | cons x xs ih =>
    obtain ⟨m, hm, hkind⟩ := hleaf
    exact ⟨fun _ => ⟨m, List.mem_append_right _ hm, hkind⟩, ih⟩

namespace Shape

/-- Every constructor in a shape is called by a name. -/
def Spelled : Shape → Prop
  | any => True
  | bare c => IsName c.name
  | wrap c arg => IsName c.name ∧ arg.Spelled

/-- The lexemes of a shape as it is written. -/
def lexemes : Shape → List Lexeme
  | any => [⟨.underscore, ['_']⟩]
  | bare c => [⟨.ident, c.name.toList⟩]
  | wrap c arg =>
    ⟨.ident, c.name.toList⟩ :: ⟨.leftParen, ['(']⟩ :: (arg.lexemes ++ [⟨.rightParen, [')']⟩])

/-- The lexemes of an arm that is written for a shape. -/
def armLexemes (s : Shape) : List Lexeme :=
  ⟨.blank, [' ', ' ', ' ', ' ']⟩ :: (s.lexemes ++
    [⟨.blank, [' ']⟩, ⟨.fatArrow, ['=', '>']⟩, ⟨.blank, [' ']⟩, ⟨.leftBrace, ['\x7b']⟩,
      ⟨.rightBrace, ['\x7d']⟩, ⟨.newline, ['\n']⟩])

/-- The lexemes of a shape spell it as it is written. -/
theorem texts_lexemes (s : Shape) : Lexeme.texts s.lexemes = s.render.toList := by
  induction s with
  | any => rfl
  | bare c => simp [lexemes, render]
  | wrap c arg ih => simp [lexemes, render, ih]

theorem texts_armLexemes (s : Shape) : Lexeme.texts s.armLexemes = (newArm s).toList := by
  simp [armLexemes, newArm, texts_lexemes]

/-- The lexemes of several arms spell the text that is inserted for their shapes. -/
theorem texts_flatMap_armLexemes (shapes : List Shape) :
    Lexeme.texts (shapes.flatMap armLexemes) = (String.join (shapes.map newArm)).toList := by
  induction shapes with
  | nil => rfl
  | cons s shapes ih =>
    rw [List.flatMap_cons, Lexeme.texts_append, texts_armLexemes, ih, List.map_cons,
      String.join_cons, String.toList_append]

/-- A written shape begins with a character of a word. -/
theorem head?_texts_lexemes_append {s : Shape} (hs : s.Spelled) (rest : List Lexeme) :
    ∃ c ∈ (Lexeme.texts (s.lexemes ++ rest)).head?, Lexeme.isWordStart c = true := by
  -- an underscore or a name
  cases s with
  | any => exact ⟨'_', rfl, rfl⟩
  | bare r =>
    obtain ⟨c, cs, hcs, hc⟩ := IsName.exists_eq_cons hs
    exact ⟨c, by simp [lexemes, hcs], hc⟩
  | wrap r arg =>
    obtain ⟨c, cs, hcs, hc⟩ := IsName.exists_eq_cons hs.1
    exact ⟨c, by simp [lexemes, hcs], hc⟩

/-- **A written shape is cut into its own lexemes**, if no character of a word follows it. -/
theorem tiled_lexemes_append {s : Shape} (hs : s.Spelled) {rest : List Lexeme}
    (hrest : Lexeme.Tiled rest)
    (hnext : ∀ c ∈ (Lexeme.texts rest).head?, Lexeme.isWordChar c = false) :
    Lexeme.Tiled (s.lexemes ++ rest) := by
  -- what follows is general, since an argument is followed by its closing parenthesis
  induction s generalizing rest with
  | any =>
    have hword : Lexeme.Formed ⟨Lexeme.wordKind ['_'], ['_']⟩ :=
      .word (by decide) (List.forall_mem_nil _)
    exact .rule hword hnext hrest
  | bare c => exact .rule hs hnext hrest
  | wrap c arg ih =>
    -- built up from the end: the closing parenthesis, the argument, the opening one and the name
    have hclosing : Lexeme.Tiled (⟨.rightParen, [')']⟩ :: rest) :=
      .rule (.mark (by decide)) trivial hrest
    have harg : Lexeme.Tiled (arg.lexemes ++ ⟨.rightParen, [')']⟩ :: rest) := by
      refine ih hs.2 hclosing fun c hc => ?_
      cases hc
      rfl
    have hopening : Lexeme.Tiled
        (⟨.leftParen, ['(']⟩ :: (arg.lexemes ++ ⟨.rightParen, [')']⟩ :: rest)) :=
      .rule (.mark (by decide)) trivial harg
    simp only [lexemes, List.cons_append, List.append_assoc, List.nil_append]
    refine .rule hs.1 (fun x hx => ?_) hopening
    cases hx
    rfl

/-- A written arm is cut into its own lexemes, whatever follows: it ends with its line. -/
theorem tiled_armLexemes_append {s : Shape} (hs : s.Spelled) {rest : List Lexeme}
    (hrest : Lexeme.Tiled rest) : Lexeme.Tiled (s.armLexemes ++ rest) := by
  -- behind the pattern everything is fixed
  have hline : Lexeme.Tiled (⟨.newline, ['\n']⟩ :: rest) :=
    .rule .lineFeed (fun h => by simp at h) hrest
  have hbody : Lexeme.Tiled
      (⟨.leftBrace, ['\x7b']⟩ :: ⟨.rightBrace, ['\x7d']⟩ :: ⟨.newline, ['\n']⟩ :: rest) :=
    .rule (.mark (by decide)) trivial (.rule (.mark (by decide)) trivial hline)
  have hblank : ∀ c ∈ [' '], Lexeme.isBlank c = true := by simp [Lexeme.isBlank]
  have hspace := Lexeme.Tiled.rule (.blank hblank) (fun x hx => by cases hx; rfl) hbody
  have harrow : Lexeme.Tiled (⟨.fatArrow, ['=', '>']⟩ :: ⟨.blank, [' ']⟩ ::
      ⟨.leftBrace, ['\x7b']⟩ :: ⟨.rightBrace, ['\x7d']⟩ :: ⟨.newline, ['\n']⟩ :: rest) :=
    .rule (.mark (by decide)) trivial hspace
  have hbehind := Lexeme.Tiled.rule (.blank hblank) (fun x hx => by cases hx; rfl) harrow
  -- a blank follows the pattern, so its last name cannot go on
  have hpattern := tiled_lexemes_append hs hbehind fun c hc => by
    cases hc
    rfl
  simp only [armLexemes, List.cons_append, List.append_assoc, List.nil_append]
  -- the indentation ends where the pattern begins, which is no blank
  refine .rule (.blank (by simp [Lexeme.isBlank])) (fun c hc => ?_) hpattern
  obtain ⟨d, hd, hword⟩ := head?_texts_lexemes_append hs _
  rw [Option.mem_unique hc hd]
  exact Lexeme.not_isBlank_of_isWordStart hword

/-- Arms that are written one behind the other are cut into their own lexemes. -/
theorem tiled_flatMap_armLexemes {shapes : List Shape} (h : ∀ s ∈ shapes, s.Spelled) :
    Lexeme.Tiled (shapes.flatMap armLexemes) := by
  induction shapes with
  | nil => exact .nil
  | cons s shapes ih =>
    exact tiled_armLexemes_append (h s List.mem_cons_self)
      (ih fun t ht => h t (List.mem_cons_of_mem s ht))

/-- The arms that are written for shapes are scanned as they are written. -/
theorem scan_join_newArm {shapes : List Shape} (h : ∀ s ∈ shapes, s.Spelled) :
    Lexeme.scan (String.join (shapes.map newArm)).toList = shapes.flatMap armLexemes := by
  rw [← texts_flatMap_armLexemes, Lexeme.scan_texts (tiled_flatMap_armLexemes h)]

/-- Whether a line ends behind a lexeme of a written arm does not depend on what follows the arms.
-/
theorem delimited_flatMap_armLexemes (shapes : List Shape) :
    Lexeme.Delimited (shapes.flatMap armLexemes) := by
  induction shapes with
  | nil => trivial
  | cons s shapes ih =>
    -- behind every lexeme of the pattern stands the arrow
    have hline : Lexeme.Delimited (⟨.newline, ['\n']⟩ :: shapes.flatMap armLexemes) :=
      ⟨fun h => by simp [TokenKind.endsCtor] at h, ih⟩
    have hbehind : Lexeme.Delimited (⟨.fatArrow, ['=', '>']⟩ :: ⟨.blank, [' ']⟩ ::
        ⟨.leftBrace, ['\x7b']⟩ :: ⟨.rightBrace, ['\x7d']⟩ :: ⟨.newline, ['\n']⟩ ::
          shapes.flatMap armLexemes) :=
      ⟨fun h => by simp [TokenKind.endsCtor] at h, fun h => by simp [TokenKind.endsCtor] at h,
        fun h => by simp [TokenKind.endsCtor] at h, fun h => by simp [TokenKind.endsCtor] at h,
        hline⟩
    have harm := Lexeme.Delimited.append
      (⟨.blank, [' ', ' ', ' ', ' ']⟩ :: (s.lexemes ++ [⟨.blank, [' ']⟩])) hbehind
      ⟨_, List.mem_cons_self, rfl⟩
    simpa [armLexemes] using harm

/-- The last lexeme of written arms is a line end, which nothing can continue. -/
theorem isSealed_flatMap_armLexemes (shapes : List Shape) :
    ∀ l ∈ (shapes.flatMap armLexemes).getLast?, l.isSealed = true := by
  induction shapes with
  | nil => nofun
  | cons s shapes ih =>
    intro l hl
    rw [List.flatMap_cons, List.getLast?_append, Option.mem_def, Option.or_eq_some_iff] at hl
    -- every arm ends its line, also the last one
    rcases hl with hl | ⟨-, hl⟩
    · exact ih l hl
    · have hline : s.armLexemes.getLast? = some ⟨.newline, ['\n']⟩ := by
        simp [armLexemes, List.getLast?_cons]
      rw [hline] at hl
      cases hl
      rfl

/-- Behind the arms that are written for shapes every text is read as if it stood alone. -/
theorem closed_scan_join_newArm {shapes : List Shape} (h : ∀ s ∈ shapes, s.Spelled) :
    Lexeme.Closed (Lexeme.scan (String.join (shapes.map newArm)).toList) := by
  rw [scan_join_newArm h]
  exact ⟨tiled_flatMap_armLexemes h, delimited_flatMap_armLexemes shapes,
    isSealed_flatMap_armLexemes shapes⟩

end Shape

/-! ### Trees -/

/-- A leaf that stands nowhere. -/
def Terminal.written (k : TokenKind) (text : List Char) : Terminal k :=
  ⟨⟨⟨k, text, default⟩, false⟩, rfl⟩

@[simp] theorem Terminal.strip_leaf_written (k : TokenKind) (text : List Char) :
    (Terminal.written k text).leaf.strip = (Terminal.written k text).leaf := by
  simp [Terminal.written, Leaf.move, Span.forget]

@[simp] theorem Terminal.span_written (k : TokenKind) (text : List Char) :
    (Terminal.written k text).span = default := rfl

@[simp] theorem Terminal.ident_written (name : String) :
    (Terminal.written .ident name.toList).ident = ⟨name, default⟩ := by
  simp [Terminal.ident, Terminal.written, Token.name, span]

namespace Shape

/-- The tree of a shape as it is written. -/
def termTree : Shape → TermTree .pattern
  | any => .wildcard (.written .underscore ['_'])
  | bare c => .name (.written .ident c.name.toList)
  | wrap c arg =>
    .call (.written .ident c.name.toList) (.written .leftParen ['(']) (.some arg.termTree .nil)
      (.written .rightParen [')'])

/-- The tree of an arm that is written for a shape. -/
def armTree (s : Shape) : ArmTree where
  pattern := s.termTree
  arrow := .written .fatArrow ['=', '>']
  body := ⟨.written .leftBrace ['\x7b'], [], .nil, .written .rightBrace ['\x7d']⟩
  commas := []

theorem map_strip_leaves_termTree (s : Shape) :
    s.termTree.leaves.map Leaf.strip = s.termTree.leaves := by
  induction s with
  | any => simp [termTree, TermTree.leaves]
  | bare c => simp [termTree, TermTree.leaves]
  | wrap c arg ih => simp [termTree, TermTree.leaves, ArgsTree.leaves, MoreArgs.leaves, ih]

theorem map_strip_leaves_armTree (s : Shape) :
    s.armTree.leaves.map Leaf.strip = s.armTree.leaves := by
  simp [armTree, ArmTree.leaves, ArmTree.armLeaves, BlockTree.leaves, map_strip_leaves_termTree]

/-- A written shape nests as deep as the shape does. -/
theorem depth_termTree (s : Shape) : s.termTree.depth = s.depth := by
  induction s with
  | any => rfl
  | bare c => rfl
  | wrap c arg ih => simp [termTree, TermTree.depth, ArgsTree.depth, MoreArgs.depth, depth, ih]

/-- **A written shape is outlined as its tree**, if no line ends right behind it. -/
theorem outline_lexemes_append (s : Shape) {rest : List Lexeme}
    (hrest : TokenKind.breaksFirst (rest.map (·.kind)) = false) :
    Lexeme.outline (s.lexemes ++ rest) = s.termTree.leaves ++ Lexeme.outline rest := by
  induction s generalizing rest with
  | any => simp [lexemes, termTree, TermTree.leaves, Lexeme.outline, TokenKind.isTrivia,
      TokenKind.endsCtor, Terminal.written]
  | bare c => simp [lexemes, termTree, TermTree.leaves, Lexeme.outline, TokenKind.isTrivia, hrest,
      Terminal.written]
  | wrap c arg ih =>
    -- no line ends within a pattern, so the outline is taken lexeme by lexeme
    have hclosing : TokenKind.breaksFirst ((⟨.rightParen, [')']⟩ :: rest).map (·.kind)) = false :=
      rfl
    simp only [lexemes, List.cons_append, List.append_assoc, List.nil_append]
    rw [Lexeme.outline_cons_of_not_isTrivia rfl, Lexeme.outline_cons_of_not_isTrivia rfl,
      ih hclosing, Lexeme.outline_cons_of_not_isTrivia rfl, hrest]
    simp [termTree, TermTree.leaves, ArgsTree.leaves, MoreArgs.leaves, Terminal.written,
      TokenKind.breaksFirst, TokenKind.endsCtor]

/-- A written arm is outlined as its tree, whatever follows. -/
theorem outline_armLexemes_append (s : Shape) (rest : List Lexeme) :
    Lexeme.outline (s.armLexemes ++ rest) = s.armTree.leaves ++ Lexeme.outline rest := by
  simp only [armLexemes, List.cons_append, List.append_assoc, List.nil_append]
  rw [Lexeme.outline_cons_of_isTrivia rfl, outline_lexemes_append s rfl]
  simp [armTree, ArmTree.leaves, ArmTree.armLeaves, BlockTree.leaves, Terminal.written,
    Lexeme.outline, TokenKind.isTrivia, TokenKind.endsCtor]

/-- The outline of the arms that are written for shapes is that of their trees. -/
theorem outline_flatMap_armLexemes (shapes : List Shape) :
    Lexeme.outline (shapes.flatMap armLexemes) =
      (shapes.map armTree).flatMap ArmTree.leaves := by
  induction shapes with
  | nil => rfl
  | cons s shapes ih => rw [List.flatMap_cons, outline_armLexemes_append, ih]; rfl

/-! ### Patterns -/

/-- The pattern that is read from a shape as it is written, without its places. -/
def pattern : Shape → Pattern
  | any => .wildcard default
  | bare c => .ctor default ⟨c.name, default⟩ []
  | wrap c arg => .ctor default ⟨c.name, default⟩ [arg.pattern]

/-- The arm that is written for a shape, without its places. -/
def arm (s : Shape) : Arm :=
  ⟨default, s.pattern, default⟩

/-- The tree of a shape stands for the shape's pattern. -/
theorem value_termTree (s : Shape) : s.termTree.value = s.pattern := by
  induction s with
  | any => rfl
  | bare c =>
    rw [termTree, TermTree.value, Terminal.span_written, Terminal.ident_written]
    rfl
  | wrap c arg ih =>
    -- from the name to the closing parenthesis is no way, since both stand nowhere
    rw [termTree, TermTree.value, ArgsTree.values, ih, Terminal.span_written,
      Terminal.span_written, Terminal.ident_written, Span.merge_self]
    rfl

/-- The tree of an arm stands for the arm of the shape. -/
theorem arm_armTree (s : Shape) : s.armTree.arm = s.arm := by
  have hpattern : s.armTree.pattern.value = s.pattern := s.value_termTree
  have hspan : s.pattern.span = default := by cases s <;> rfl
  have hbody : s.armTree.body.span = default := Span.merge_self _
  simp only [ArmTree.arm, hpattern, hbody, hspan, Span.merge_self, arm]

end Shape

/-- Every declared constructor is called by a name. -/
def Signature.Spelled (sig : Signature) : Prop :=
  ∀ ty ∈ sig.types, ∀ c ∈ ty.ctors, IsName c.name

namespace Shape

variable {sig : Signature} {ty : TypeDef} {s : Shape}

/-- What fits a type that was read from a text is called by names. -/
theorem Fits.spelled (h : s.Fits sig ty) (hsig : sig.Spelled) (hty : ty ∈ sig.types) :
    s.Spelled := by
  -- along the types of the fields, which are declared as well
  induction h with
  | any => trivial
  | bare hc _ => exact hsig _ hty _ hc
  | wrap hc hfield _ ih => exact ⟨hsig _ hty _ hc, ih (Signature.mem_types_of_fieldType? hfield)⟩
  | foreign hc _ _ => exact ⟨hsig _ hty _ hc, trivial⟩

/-- **What is written for a shape is resolved to it.** -/
theorem Fits.resolve_pattern (h : s.Fits sig ty) (hsig : sig.Distinct) (hty : ty ∈ sig.types) :
    sig.resolve ty s.pattern = .ok s := by
  -- in each case the constructor is found by its name, since names are distinct
  induction h with
  | any => rfl
  | @bare ty c hc hfield =>
    have hctor : ty.ctor? c.name = some c := (Signature.ctor?_eq_some_iff hsig hty).mpr ⟨hc, rfl⟩
    simp [pattern, TypeDef.ref, Signature.resolve, hctor, hfield]
  | @wrap ty fieldTy c arg hc hfield _ ih =>
    have hctor : ty.ctor? c.name = some c := (Signature.ctor?_eq_some_iff hsig hty).mpr ⟨hc, rfl⟩
    obtain ⟨field, hsome, htype⟩ := Option.bind_eq_some_iff.mp hfield
    have harg := ih (Signature.mem_types_of_fieldType? hfield)
    simp [pattern, TypeDef.ref, Signature.resolve, hctor, hsome, htype, harg, Except.map]
  | @foreign ty c hc hsome hnone =>
    -- the type of the field is unknown, so its pattern is not looked at
    have hctor : ty.ctor? c.name = some c := (Signature.ctor?_eq_some_iff hsig hty).mpr ⟨hc, rfl⟩
    obtain ⟨field, hfield⟩ := Option.isSome_iff_exists.mp hsome
    rw [Signature.fieldType?_of_field hfield] at hnone
    simp [pattern, TypeDef.ref, Signature.resolve, hctor, hfield, hnone]

end Shape

end MatchCheck
