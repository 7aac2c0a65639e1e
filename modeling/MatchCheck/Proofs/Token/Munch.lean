import MatchCheck.Proofs.Token.Place

/-!
# Longest match

The language has one rule for each kind of token, and `Rule` says which texts a rule accepts, taken
by itself. Rules overlap: the rule of names accepts the keywords too, and every rule that accepts a
long word or a long blank accepts the shorter ones with which it begins. What a text is cut into
follows from the rules by longest match. Where some rule accepts something, the longest text that
any rule accepts is cut off, and if it is a keyword it is of the keyword's kind. Where no rule
accepts anything, the character is `unknown`, and such characters that stand together make up one
lexeme.

`Cut` says this about one lexeme and the text behind it, without the scanner. The lexemes of a text
are the only lexemes that make it up and of which each is cut off in this way
(`Lexeme.scan_eq_iff_cut`).
-/

namespace MatchCheck

namespace Lexeme

/-! ### Rules

The rules stand apart from the scanner: they have character classes of their own, and the tests of
the scanner are shown to decide these. -/

/-- The characters that begin a word: ASCII letters and the underscore. -/
def WordStart (c : Char) : Prop :=
  ('a' ≤ c ∧ c ≤ 'z') ∨ ('A' ≤ c ∧ c ≤ 'Z') ∨ c = '_'

/-- The characters that continue a word: those that begin one, and ASCII digits. -/
def WordChar (c : Char) : Prop :=
  WordStart c ∨ ('0' ≤ c ∧ c ≤ '9')

/-- The blanks inside a line: space, tabulator and the ideographic space. -/
def Blank (c : Char) : Prop :=
  c = ' ' ∨ c = '\t' ∨ c = '\u3000'

/-- The kinds of the words with a fixed meaning. -/
def Keyword (k : TokenKind) : Prop :=
  k = .enumWord ∨ k = .matchWord ∨ k = .underscore

/-- The scanner's test for the first character of a word decides the class. -/
theorem isWordStart_iff {c : Char} : isWordStart c = true ↔ WordStart c := by
  have hupper : c.isUpper = true ↔ 'A' ≤ c ∧ c ≤ 'Z' := decide_eq_true_iff
  have hlower : c.isLower = true ↔ 'a' ≤ c ∧ c ≤ 'z' :=
    Bool.and_eq_true_iff.trans (and_congr decide_eq_true_iff decide_eq_true_iff)
  have halpha : c.isAlpha = true ↔ c.isUpper = true ∨ c.isLower = true := Bool.or_eq_true_iff
  rw [isWordStart, Bool.or_eq_true_iff, halpha, hupper, hlower, beq_iff_eq, WordStart, ← or_assoc,
    or_comm (a := 'a' ≤ c ∧ c ≤ 'z')]

theorem isWordChar_iff {c : Char} : isWordChar c = true ↔ WordChar c := by
  have hdigit : c.isDigit = true ↔ '0' ≤ c ∧ c ≤ '9' :=
    Bool.and_eq_true_iff.trans (and_congr decide_eq_true_iff decide_eq_true_iff)
  have halphanum : c.isAlphanum = true ↔ c.isAlpha = true ∨ c.isDigit = true := Bool.or_eq_true_iff
  rw [isWordChar, Bool.or_eq_true_iff, halphanum, hdigit, beq_iff_eq, WordChar, ← isWordStart_iff,
    isWordStart, Bool.or_eq_true_iff, beq_iff_eq, or_right_comm]

theorem isBlank_iff {c : Char} : isBlank c = true ↔ Blank c := by
  simp [isBlank, Blank, or_assoc]

/-- The texts that the rule of a kind accepts. -/
inductive Rule : TokenKind → List Char → Prop
  | enumWord : Rule .enumWord ['e', 'n', 'u', 'm']
  | matchWord : Rule .matchWord ['m', 'a', 't', 'c', 'h']
  | underscore : Rule .underscore ['_']
  | ident {c : Char} {cs : List Char} (hc : WordStart c) (hcs : ∀ x ∈ cs, WordChar x) :
      Rule .ident (c :: cs)
  | leftParen : Rule .leftParen ['(']
  | rightParen : Rule .rightParen [')']
  | leftBrace : Rule .leftBrace ['\x7b']
  | rightBrace : Rule .rightBrace ['\x7d']
  | comma : Rule .comma [',']
  | fatArrow : Rule .fatArrow ['=', '>']
  | lineComment {cs : List Char} (h : ∀ x ∈ cs, x ≠ '\r' ∧ x ≠ '\n') :
      Rule .lineComment ('/' :: '/' :: cs)
  | blank {c : Char} {cs : List Char} (h : ∀ x ∈ c :: cs, Blank x) :
      Rule .blank (c :: cs)
  | returnAndFeed : Rule .newline ['\r', '\n']
  | lineFeed : Rule .newline ['\n']
  | carriageReturn : Rule .newline ['\r']

/-- The first of two kinds comes before the second where both rules accept a text: a keyword is no
name. -/
def Prior (k k' : TokenKind) : Prop :=
  k = k' ∨ (Keyword k ∧ k' = .ident)

/-- The lexeme is the longest that a rule accepts in front of `rest`. -/
structure LongestMatch (l : Lexeme) (rest : List Char) : Prop where
  accepted : Rule l.kind l.text
  longest : ∀ k w, Rule k w → w <+: l.text ++ rest → w <+: l.text
  prior : ∀ k, Rule k l.text → Prior l.kind k

/-- At none of the characters of the text does a rule accept anything. -/
def Unmatched (cs rest : List Char) : Prop :=
  ∀ front back, cs = front ++ back → back ≠ [] → ∀ k w, Rule k w → ¬ w <+: back ++ rest

/-- **How a lexeme is cut off** in front of `rest`. -/
structure Cut (l : Lexeme) (rest : List Char) : Prop where
  nonempty : l.text ≠ []
  matched : l.kind ≠ .unknown → l.LongestMatch rest
  unmatched : l.kind = .unknown → Unmatched l.text rest
  /-- A word is not followed by a character that could continue it. -/
  word_ends : l.kind = .ident ∨ Keyword l.kind → ∀ c ∈ rest.head?, ¬ WordChar c
  /-- Blanks are not followed by a blank. -/
  blank_ends : l.kind = .blank → ∀ c ∈ rest.head?, ¬ Blank c
  /-- A comment is followed by a line break or by nothing. -/
  comment_ends : l.kind = .lineComment → ∀ c ∈ rest.head?, c = '\r' ∨ c = '\n'
  /-- A carriage return and a line feed are one line break. -/
  newline_ends : l.kind = .newline → l.text = ['\r'] → rest.head? ≠ some '\n'
  enumWord_iff : l.kind = .enumWord ↔ l.text = ['e', 'n', 'u', 'm']
  matchWord_iff : l.kind = .matchWord ↔ l.text = ['m', 'a', 't', 'c', 'h']
  underscore_iff : l.kind = .underscore ↔ l.text = ['_']

/-! ### Rules and the front of a text -/

theorem Rule.ne_nil {k : TokenKind} {w : List Char} (h : Rule k w) : w ≠ [] := by
  cases h <;> simp

/-- What a rule accepts is not unknown. -/
theorem Rule.kind_ne_unknown {k : TokenKind} {w : List Char} (h : Rule k w) : k ≠ .unknown := by
  cases h <;> simp

/-- The kind of a word comes before that of names, or is it. -/
theorem prior_wordKind (word : List Char) : Prior (wordKind word) .ident := by
  rcases wordKind_cases word with h | h | h | h
  · exact Or.inr ⟨Or.inl h, rfl⟩
  · exact Or.inr ⟨Or.inr (Or.inl h), rfl⟩
  · exact Or.inr ⟨Or.inr (Or.inr h), rfl⟩
  · exact Or.inl h

/-- What the rules of words accept begins the word at the front of a text. -/
theorem atFront?_of_word {c : Char} {cs : List Char} (hc : isWordStart c = true)
    (hcs : ∀ x ∈ cs, isWordChar x = true) (rest : List Char) :
    ∃ l, atFront? (c :: cs ++ rest) = some l ∧ c :: cs <+: l.text ∧
      (c :: cs = l.text → l.kind = wordKind (c :: cs)) := by
  -- the scanner goes on to the end of the word, which may be further than the rule's text
  have htake : (cs ++ rest).takeWhile isWordChar = cs ++ rest.takeWhile isWordChar :=
    List.takeWhile_append_of_pos hcs
  have hfront : atFront? (c :: cs ++ rest) = some
      ⟨wordKind (c :: cs ++ rest.takeWhile isWordChar), c :: cs ++ rest.takeWhile isWordChar⟩ := by
    rw [List.cons_append, List.cons_append, ← htake]
    simp only [atFront?, hc, if_true]
  exact ⟨_, hfront, List.prefix_append _ _, fun heq => congrArg wordKind heq.symm⟩

/-- **No rule accepts more.** What a rule accepts at the front of a text is a part of the lexeme
that is cut off there, and the kind of the lexeme comes first among those of the rules that accept
it. -/
theorem exists_atFront?_of_rule {k : TokenKind} {w : List Char} (h : Rule k w) (rest : List Char) :
    ∃ l, atFront? (w ++ rest) = some l ∧ w <+: l.text ∧ (w = l.text → Prior l.kind k) := by
  -- a mark is cut off as it is accepted
  have hmark : ∀ l ∈ marks, ∃ m, atFront? (l.text ++ rest) = some m ∧ l.text <+: m.text ∧
      (l.text = m.text → Prior m.kind l.kind) := by
    intro l hl
    exact ⟨l, atFront?_of_formed (.mark hl) (endsBefore_mark hl _), List.prefix_refl _,
      fun _ => Or.inl rfl⟩
  cases h with
  | enumWord =>
    obtain ⟨l, hl, hprefix, hkind⟩ := @atFront?_of_word 'e' ['n', 'u', 'm']
      (by decide) (List.all_eq_true.mp rfl) rest
    exact ⟨l, hl, hprefix, fun heq => Or.inl (hkind heq)⟩
  | matchWord =>
    obtain ⟨l, hl, hprefix, hkind⟩ := @atFront?_of_word 'm' ['a', 't', 'c', 'h']
      (by decide) (List.all_eq_true.mp rfl) rest
    exact ⟨l, hl, hprefix, fun heq => Or.inl (hkind heq)⟩
  | underscore =>
    obtain ⟨l, hl, hprefix, hkind⟩ := @atFront?_of_word '_' []
      (by decide) (List.all_eq_true.mp rfl) rest
    exact ⟨l, hl, hprefix, fun heq => Or.inl (hkind heq)⟩
  | ident hc hcs =>
    obtain ⟨l, hl, hprefix, hkind⟩ := atFront?_of_word (isWordStart_iff.mpr hc)
      (fun x hx => isWordChar_iff.mpr (hcs x hx)) rest
    exact ⟨l, hl, hprefix, fun heq => hkind heq ▸ prior_wordKind _⟩
  | leftParen => exact hmark ⟨.leftParen, ['(']⟩ (by decide)
  | rightParen => exact hmark ⟨.rightParen, [')']⟩ (by decide)
  | leftBrace => exact hmark ⟨.leftBrace, ['\x7b']⟩ (by decide)
  | rightBrace => exact hmark ⟨.rightBrace, ['\x7d']⟩ (by decide)
  | comma => exact hmark ⟨.comma, [',']⟩ (by decide)
  | fatArrow => exact hmark ⟨.fatArrow, ['=', '>']⟩ (by decide)
  -- as with words, the scanner may go on behind what the rule accepts
  | @lineComment cs h =>
    have htake : (cs ++ rest).takeWhile (!Text.isLineBreak ·) =
        cs ++ rest.takeWhile (!Text.isLineBreak ·) := by
      refine List.takeWhile_append_of_pos fun x hx => ?_
      obtain ⟨hr, hn⟩ := h x hx
      simp [Text.isLineBreak, hr, hn]
    have hfront : atFront? ('/' :: '/' :: (cs ++ rest)) = some
        ⟨.lineComment, '/' :: '/' :: (cs ++ rest).takeWhile (!Text.isLineBreak ·)⟩ := rfl
    rw [htake] at hfront
    exact ⟨_, hfront, List.prefix_append ('/' :: '/' :: cs) _, fun _ => Or.inl rfl⟩
  | @blank c cs h =>
    obtain ⟨hc, hcs⟩ := List.forall_mem_cons.mp fun x hx => isBlank_iff.mpr (h x hx)
    have htake : (cs ++ rest).takeWhile isBlank = cs ++ rest.takeWhile isBlank :=
      List.takeWhile_append_of_pos hcs
    have hfront : atFront? (c :: cs ++ rest) = some
        ⟨.blank, c :: cs ++ rest.takeWhile isBlank⟩ := by
      rw [List.cons_append, List.cons_append, ← htake]
      simp [atFront?, isWordStart_eq_false_of_isBlank hc, hc]
    exact ⟨_, hfront, List.prefix_append _ _, fun _ => Or.inl rfl⟩
  | returnAndFeed => exact ⟨_, rfl, List.prefix_refl _, fun _ => Or.inl rfl⟩
  | lineFeed => exact ⟨_, rfl, List.prefix_refl _, fun _ => Or.inl rfl⟩
  | carriageReturn =>
    -- a line feed behind it belongs to the line break
    by_cases hnext : rest.head? = some '\n'
    · obtain ⟨rest, rfl⟩ := List.head?_eq_some_iff.mp hnext
      exact ⟨_, rfl, List.prefix_append ['\r'] ['\n'], fun _ => Or.inl rfl⟩
    · exact ⟨_, atFront?_of_formed .carriageReturn (fun _ => hnext), List.prefix_refl _,
        fun _ => Or.inl rfl⟩

/-- What the scanner forms is accepted by the rule of its kind. -/
theorem Formed.rule {l : Lexeme} (h : l.Formed) : Rule l.kind l.text := by
  cases h with
  | @word c cs hc hcs =>
    -- the kind of a word is that of the keyword it is, or else of a name
    show Rule (wordKind (c :: cs)) (c :: cs)
    unfold wordKind
    split_ifs with henum hmatch hunderscore
    · rw [henum]; exact .enumWord
    · rw [hmatch]; exact .matchWord
    · rw [hunderscore]; exact .underscore
    · exact .ident (isWordStart_iff.mp hc) fun x hx => isWordChar_iff.mp (hcs x hx)
  | blank h => exact .blank fun x hx => isBlank_iff.mp (h x hx)
  | mark h =>
    rcases mem_marks_cases h with rfl | rfl | rfl | rfl | rfl | rfl
    exacts [.leftParen, .rightParen, .leftBrace, .rightBrace, .comma, .fatArrow]
  | comment h =>
    refine .lineComment fun x hx => ?_
    simpa [Text.isLineBreak, and_comm] using h x hx
  | carriageReturn => exact .carriageReturn
  | lineFeed => exact .lineFeed
  | returnAndFeed => exact .returnAndFeed

/-! ### Tiles are cut off -/

/-- Characters at which no rule applies are characters at which no rule accepts anything. -/
theorem strays_iff_unmatched {cs rest : List Char} :
    Strays cs rest.head? ↔ Unmatched cs rest := by
  induction cs with
  | nil =>
    refine iff_of_true trivial ?_
    intro front back heq hne
    exact absurd (List.append_eq_nil_iff.mp heq.symm).2 hne
  | cons c cs ih =>
    have hstray :
        isStray c (cs.head?.or rest.head?) = true ↔ atFront? (c :: (cs ++ rest)) = none := by
      rw [atFront?_cons_eq_none_iff, List.head?_append]
    rw [Strays, hstray, ih]
    refine ⟨?_, ?_⟩
    · rintro ⟨hnone, hcs⟩ front back heq hne k w hrule ⟨tail, htail⟩
      rcases List.cons_eq_append_iff.mp heq with ⟨rfl, rfl⟩ | ⟨front', rfl, hrest⟩
      · -- at the first character the rule would have cut off a lexeme
        obtain ⟨l, hl, -⟩ := exists_atFront?_of_rule hrule tail
        rw [htail, List.cons_append, hnone] at hl
        cases hl
      · exact hcs front' back hrest hne k w hrule ⟨tail, htail⟩
    · intro h
      refine ⟨?_, fun front back heq => h (c :: front) back (by rw [heq]; rfl)⟩
      cases hfront : atFront? (c :: (cs ++ rest)) with
      | none => rfl
      | some l =>
        obtain ⟨behind, htext, hl, -⟩ := exists_of_atFront? hfront
        exact absurd ⟨behind, htext.symm⟩
          (h [] (c :: cs) rfl (List.cons_ne_nil _ _) l.kind l.text hl.rule)

variable {l : Lexeme} {ls : List Lexeme} {rest : List Char}

/-- A lexeme that ends where the scanner ends it is the longest match. -/
theorem Formed.longestMatch (hl : l.Formed) (hend : l.EndsBefore rest.head?) :
    l.LongestMatch rest := by
  have hfront := atFront?_of_formed hl hend
  -- any other rule leads to the same lexeme at the front of the text
  refine ⟨hl.rule, ?_, ?_⟩
  · rintro k w hrule ⟨tail, htail⟩
    obtain ⟨m, hm, hprefix, -⟩ := exists_atFront?_of_rule hrule tail
    rw [htail, hfront] at hm
    exact (Option.some.inj hm).symm ▸ hprefix
  · intro k hrule
    obtain ⟨m, hm, -, hprior⟩ := exists_atFront?_of_rule hrule rest
    rw [hfront] at hm
    obtain rfl := Option.some.inj hm
    exact hprior rfl

/-- A keyword is a keyword exactly when it is the whole word. -/
theorem kind_eq_iff_of_rule {k : TokenKind} {word : List Char}
    (hmatched : l.kind ≠ .unknown → l.LongestMatch rest)
    (hunmatched : l.kind = .unknown → Unmatched l.text rest) (hword : Rule k word)
    (honly : ∀ w, Rule k w → w = word) (hident : k ≠ .ident) : l.kind = k ↔ l.text = word := by
  refine ⟨fun hkind => ?_, fun htext => ?_⟩
  · have hknown : l.kind ≠ .unknown := hkind ▸ hword.kind_ne_unknown
    exact honly _ (hkind ▸ (hmatched hknown).accepted)
  · -- characters that spell the word cannot be unknown, for its rule accepts them
    by_cases hkind : l.kind = .unknown
    · exact absurd (htext ▸ List.prefix_append _ _)
        (hunmatched hkind [] l.text rfl (htext ▸ hword.ne_nil) k word hword)
    · rcases (hmatched hkind).prior k (htext ▸ hword) with hk | ⟨-, hk⟩
      · exact hk
      · exact absurd hk hident

/-- All that is asked of a lexeme that is cut off follows from how it ends and from what is accepted
there. -/
theorem cut_of_endsBefore (hne : l.text ≠ []) (hend : l.EndsBefore rest.head?)
    (hmatched : l.kind ≠ .unknown → l.LongestMatch rest)
    (hunmatched : l.kind = .unknown → Unmatched l.text rest) : l.Cut rest where
  nonempty := hne
  matched := hmatched
  unmatched := hunmatched
  word_ends := by
    intro hkind c hc
    rw [← isWordChar_iff, Bool.not_eq_true]
    -- all four kinds of words end where no character of a word follows
    rcases hkind with hkind | hkind | hkind | hkind <;> rw [EndsBefore, hkind] at hend <;>
      exact hend c hc
  blank_ends := by
    intro hkind c hc
    rw [← isBlank_iff, Bool.not_eq_true]
    rw [EndsBefore, hkind] at hend
    exact hend c hc
  comment_ends := by
    intro hkind c hc
    rw [EndsBefore, hkind] at hend
    have := hend c hc
    simp only [Text.isLineBreak, Bool.or_eq_true, beq_iff_eq] at this
    exact this.symm
  newline_ends := by
    intro hkind
    rwa [EndsBefore, hkind] at hend
  enumWord_iff := kind_eq_iff_of_rule hmatched hunmatched .enumWord
    (fun _ h => by cases h; rfl) (by decide)
  matchWord_iff := kind_eq_iff_of_rule hmatched hunmatched .matchWord
    (fun _ h => by cases h; rfl) (by decide)
  underscore_iff := kind_eq_iff_of_rule hmatched hunmatched .underscore
    (fun _ h => by cases h; rfl) (by decide)

/-- **Tiles are cut off**, by a rule or because no rule applies. -/
theorem Tiled.cut (h : Tiled (l :: ls)) : l.Cut (texts ls) := by
  cases h with
  | rule hl hend _ =>
    exact cut_of_endsBefore hl.text_ne_nil hend (fun _ => hl.longestMatch hend)
      fun hkind => absurd hkind hl.kind_ne_unknown
  | strays hne hcs _ _ =>
    exact cut_of_endsBefore hne trivial (fun hkind => absurd rfl hkind)
      fun _ => strays_iff_unmatched.mp hcs

/-! ### Lexemes that are cut off are tiles -/

/-- What is the longest match has the form that the scanner gives it. -/
theorem LongestMatch.formed (h : l.LongestMatch rest) : l.Formed := by
  obtain ⟨k, text⟩ := l
  obtain ⟨haccepted, -, hprior⟩ := h
  change Rule k text at haccepted
  cases haccepted with
  | enumWord => exact @Formed.word 'e' ['n', 'u', 'm'] (by decide) (List.all_eq_true.mp rfl)
  | matchWord => exact @Formed.word 'm' ['a', 't', 'c', 'h'] (by decide) (List.all_eq_true.mp rfl)
  | underscore => exact @Formed.word '_' [] (by decide) (List.all_eq_true.mp rfl)
  | @ident c cs hc hcs =>
    -- a name is no keyword, since the keyword would come first
    have hword : Formed ⟨wordKind (c :: cs), c :: cs⟩ :=
      .word (isWordStart_iff.mpr hc) fun x hx => isWordChar_iff.mpr (hcs x hx)
    have hkind : wordKind (c :: cs) = .ident := by
      rcases hprior _ hword.rule with heq | ⟨hkeyword, -⟩
      · exact heq.symm
      · rcases hkeyword with h | h | h <;> cases h
    exact hkind ▸ hword
  | leftParen => exact .mark (by decide)
  | rightParen => exact .mark (by decide)
  | leftBrace => exact .mark (by decide)
  | rightBrace => exact .mark (by decide)
  | comma => exact .mark (by decide)
  | fatArrow => exact .mark (by decide)
  | lineComment h =>
    refine .comment fun x hx => ?_
    simp [Text.isLineBreak, h x hx]
  | blank h => exact .blank fun x hx => isBlank_iff.mpr (h x hx)
  | returnAndFeed => exact .returnAndFeed
  | lineFeed => exact .lineFeed
  | carriageReturn => exact .carriageReturn

/-- And it ends where the scanner ends it. -/
theorem Cut.endsBefore (h : l.Cut rest) : l.EndsBefore rest.head? := by
  -- kind by kind, each as the rule of longest words, blanks, comments or line ends says
  have hword (hkind : l.kind = .ident ∨ Keyword l.kind) : ∀ c ∈ rest.head?, isWordChar c = false :=
    fun c hc => Bool.eq_false_iff.mpr (mt isWordChar_iff.mp (h.word_ends hkind c hc))
  unfold EndsBefore
  split
  · next hkind => exact hword (Or.inr (Or.inl hkind))
  · next hkind => exact hword (Or.inr (Or.inr (Or.inl hkind)))
  · next hkind => exact hword (Or.inr (Or.inr (Or.inr hkind)))
  · next hkind => exact hword (Or.inl hkind)
  · next hkind =>
    exact fun c hc => Bool.eq_false_iff.mpr (mt isBlank_iff.mp (h.blank_ends hkind c hc))
  · next hkind =>
    intro c hc
    rcases h.comment_ends hkind c hc with rfl | rfl <;> rfl
  · next hkind => exact h.newline_ends hkind
  · trivial

/-- Each lexeme is cut off in front of the texts of those behind it, and no two unknown ones follow
each other. -/
def AllCut (ls : List Lexeme) : Prop :=
  ∀ before l after, ls = before ++ l :: after →
    l.Cut (texts after) ∧ (l.kind = .unknown → ∀ m ∈ after.head?, m.kind ≠ .unknown)

/-- In a text that is tiled, each lexeme is cut off in front of those behind it. -/
theorem Tiled.allCut (h : Tiled ls) : AllCut ls := by
  rintro before l after rfl
  have htiled : Tiled (l :: after) := h.right
  refine ⟨htiled.cut, fun hkind => ?_⟩
  cases htiled with
  | rule hl _ _ => exact absurd hkind hl.kind_ne_unknown
  | strays _ _ hnext _ => exact hnext

/-- **Lexemes that are each cut off are tiles.** -/
theorem AllCut.tiled (h : AllCut ls) : Tiled ls := by
  induction ls with
  | nil => exact .nil
  | cons l ls ih =>
    have htail : Tiled ls :=
      ih fun before m after heq => h (l :: before) m after (by rw [heq]; rfl)
    obtain ⟨hcut, hnext⟩ := h [] l ls rfl
    -- an unknown lexeme is one for all its characters, and any other has a rule
    by_cases hkind : l.kind = .unknown
    · obtain ⟨kind, text⟩ := l
      cases hkind
      exact .strays hcut.nonempty (strays_iff_unmatched.mpr (hcut.unmatched rfl)) (hnext rfl) htail
    · exact .rule (hcut.matched hkind).formed hcut.endsBefore htail

/-- **Scanning is longest match.** The lexemes of a text are those that make it up and are each cut
off by longest match, and no others. -/
theorem scan_eq_iff_cut {cs : List Char} : scan cs = ls ↔ AllCut ls ∧ texts ls = cs := by
  rw [scan_eq_iff]
  exact and_congr_left fun _ => ⟨Tiled.allCut, AllCut.tiled⟩

end Lexeme

/-! ### The tokens of a source -/

namespace Token

/-- Tokens, none of them empty, that reach from one offset to another without a gap. -/
def Tile : Nat → List Token → Nat → Prop
  | start, [], stop => start = stop
  | start, t :: ts, stop =>
    t.span.start.offset = start ∧ start < t.span.stop.offset ∧ Tile t.span.stop.offset ts stop

/-- Lexemes that are placed one behind the other reach without a gap as far as their bytes do. -/
theorem tile_place {file : String} {p : Position} {ls : List Lexeme}
    (h : ∀ l ∈ ls, l.text ≠ []) :
    Tile p.offset (place file p ls) (p.offset + Text.byteLength (Lexeme.texts ls)) := by
  induction ls generalizing p with
  | nil => exact rfl
  | cons l ls ih =>
    obtain ⟨hl, hls⟩ := List.forall_mem_cons.mp h
    -- no token is empty, so that each ends behind its start
    have hpos := Text.byteLength_pos hl
    have hoffset := p.offset_advance l
    refine ⟨rfl, ?_, ?_⟩
    · show p.offset < (p.advance l).offset
      omega
    · have htail := ih (p := p.advance l) hls
      rwa [hoffset, Nat.add_assoc, ← Text.byteLength_append, ← Lexeme.texts_cons, ← hoffset]
        at htail

end Token

/-- **The tokens of a source.** Their texts make up the source, and their spans tile it from the
first byte to the last. Each stands at its span, with both ends between characters, and is cut off
by longest match in front of the texts of the tokens behind it. There is no other way to cut the
source up like this. -/
theorem Source.tokens_by_longest_match (source : Source) :
    source.tokens.flatMap Token.text = source.text ∧
      Token.Tile 0 source.tokens (Text.byteLength source.text) ∧
      (∀ t ∈ source.tokens, t.span.Genuine source ∧ t.span.Spells source t.text) ∧
      Lexeme.AllCut (source.tokens.map Token.lexeme) ∧
      ∀ ls, Lexeme.AllCut ls → Lexeme.texts ls = source.text →
        ls = source.tokens.map Token.lexeme := by
  obtain ⟨htiled, htexts⟩ := Lexeme.tiled_scan source.text
  -- placing lexemes changes none of them
  have hlexemes : source.tokens.map Token.lexeme = Lexeme.scan source.text :=
    Token.map_lexeme_place _ _ _
  refine ⟨?_, ?_, fun t ht => genuine_of_mem_tokens ht, ?_, fun ls hcut hls => ?_⟩
  · rw [tokens, Token.flatMap_text_place, htexts]
  · have htile := @Token.tile_place source.path .first _ fun l hl => htiled.text_ne_nil_of_mem hl
    rwa [htexts, show Position.first.offset = 0 from rfl, Nat.zero_add] at htile
  · rw [hlexemes]
    exact htiled.allCut
  · rw [hlexemes]
    exact (Lexeme.scan_eq_iff_cut.mpr ⟨hcut, hls⟩).symm

end MatchCheck
