import Mathlib.Data.List.TakeWhile
import MatchCheck.Token.Lexeme

/-!
# Lexemes tile a text

Scanning is described without the scanner. A lexeme is `Formed` if its text is one of its kind, and
`EndsBefore` says that the character behind it, if there is one, does not belong to it. A list of
lexemes is `Tiled` if each of them is formed and ends in front of what follows, and if characters
at which no rule applies stand together. The lexemes of a text are the only tiled list whose texts
together are that text (`Lexeme.scan_eq_iff`).

So that a lexeme ends is a matter of one character behind it. This is what makes it possible to
change a text at one place and to say what its lexemes are afterwards. The front of a tiled list
is tiled and so is its back, and two tiled lists can be put together behind a lexeme that is
complete in itself (`Lexeme.scan_append`). All that can happen there is that two pieces of trivia
of one kind become one.
-/

namespace MatchCheck.Lexeme

/-! ### The rule of a lexeme -/

/-- Brackets, the comma and the arrow. -/
def marks : List Lexeme :=
  [⟨.leftParen, ['(']⟩, ⟨.rightParen, [')']⟩, ⟨.leftBrace, ['\x7b']⟩, ⟨.rightBrace, ['\x7d']⟩,
    ⟨.comma, [',']⟩, ⟨.fatArrow, ['=', '>']⟩]

theorem mem_marks_cases {l : Lexeme} (h : l ∈ marks) :
    l = ⟨.leftParen, ['(']⟩ ∨ l = ⟨.rightParen, [')']⟩ ∨ l = ⟨.leftBrace, ['\x7b']⟩ ∨
      l = ⟨.rightBrace, ['\x7d']⟩ ∨ l = ⟨.comma, [',']⟩ ∨ l = ⟨.fatArrow, ['=', '>']⟩ := by
  simpa [marks] using h

/-- The text of a lexeme is one of its kind. -/
inductive Formed : Lexeme → Prop
  | word {c : Char} {cs : List Char} (hc : isWordStart c = true)
      (hcs : ∀ x ∈ cs, isWordChar x = true) : Formed ⟨wordKind (c :: cs), c :: cs⟩
  | blank {c : Char} {cs : List Char} (h : ∀ x ∈ c :: cs, isBlank x = true) :
      Formed ⟨.blank, c :: cs⟩
  | mark {l : Lexeme} (h : l ∈ marks) : Formed l
  | comment {cs : List Char} (h : ∀ x ∈ cs, Text.isLineBreak x = false) :
      Formed ⟨.lineComment, '/' :: '/' :: cs⟩
  | carriageReturn : Formed ⟨.newline, ['\r']⟩
  | lineFeed : Formed ⟨.newline, ['\n']⟩
  | returnAndFeed : Formed ⟨.newline, ['\r', '\n']⟩

/-- The character behind a lexeme, if there is one, does not belong to it. -/
def EndsBefore (l : Lexeme) (next : Option Char) : Prop :=
  match l.kind with
  | .enumWord | .matchWord | .underscore | .ident => ∀ c ∈ next, isWordChar c = false
  | .blank => ∀ c ∈ next, isBlank c = false
  | .lineComment => ∀ c ∈ next, Text.isLineBreak c = true
  | .newline => l.text = ['\r'] → next ≠ some '\n'
  | _ => True

/-- A lexeme ends at the end of the text. -/
theorem endsBefore_none (l : Lexeme) : l.EndsBefore none := by
  unfold EndsBefore
  split <;> simp

/-- A word is a keyword, the underscore or a name. -/
theorem wordKind_cases (word : List Char) :
    wordKind word = .enumWord ∨ wordKind word = .matchWord ∨ wordKind word = .underscore
      ∨ wordKind word = .ident := by
  unfold wordKind
  split_ifs <;> simp

/-- Words of all kinds end in front of the same characters. -/
theorem endsBefore_word {word : List Char} {next : Option Char} :
    EndsBefore ⟨wordKind word, word⟩ next ↔ ∀ c ∈ next, isWordChar c = false := by
  rcases wordKind_cases word with h | h | h | h <;> rw [EndsBefore, h]

theorem endsBefore_mark {l : Lexeme} (h : l ∈ marks) (next : Option Char) : l.EndsBefore next := by
  rcases mem_marks_cases h with rfl | rfl | rfl | rfl | rfl | rfl <;> trivial

/-- No rule forms an empty lexeme. -/
theorem Formed.text_ne_nil {l : Lexeme} (h : l.Formed) : l.text ≠ [] := by
  cases h with
  | mark h =>
    rcases mem_marks_cases h with rfl | rfl | rfl | rfl | rfl | rfl <;> simp
  | _ => simp

/-- A stretch is taken up to where the rest begins, if the rest begins with something else. -/
theorem takeWhile_append_eq {p : Char → Bool} {cs rest : List Char} (h : ∀ x ∈ cs, p x = true)
    (hrest : ∀ c ∈ rest.head?, p c = false) : (cs ++ rest).takeWhile p = cs := by
  rw [List.takeWhile_append_of_pos h]
  cases rest with
  | nil => rw [List.takeWhile_nil, List.append_nil]
  | cons c rest =>
    rw [List.takeWhile_cons_of_neg (by rw [hrest c rfl]; simp), List.append_nil]

/-- What is left behind the longest stretch begins with something else. -/
theorem head?_dropWhile_eq_false {p : Char → Bool} {cs : List Char} :
    ∀ c ∈ (cs.dropWhile p).head?, p c = false := by
  intro c hc
  have := List.head?_dropWhile_not p cs
  rw [Option.mem_def.mp hc] at this
  simpa using this

/-- A character and the one behind it, if there is one, where no rule applies. -/
def isStray (c : Char) (next : Option Char) : Bool :=
  !isWordStart c && !isBlank c && !Text.isLineBreak c
    && !(['(', ')', '\x7b', '\x7d', ','].contains c)
    && !(c == '=' && next == some '>') && !(c == '/' && next == some '/')

/-- No word begins with a blank. -/
theorem isWordStart_eq_false_of_isBlank {c : Char} (h : isBlank c = true) :
    isWordStart c = false := by
  simp only [isBlank, Bool.or_eq_true, beq_iff_eq] at h
  rcases h with (rfl | rfl) | rfl <;> decide

/-- **A lexeme that ends where the rest begins is found at the front of the text.** -/
theorem atFront?_of_formed {l : Lexeme} {rest : List Char} (hl : l.Formed)
    (hend : l.EndsBefore rest.head?) : atFront? (l.text ++ rest) = some l := by
  -- each rule takes as much as it can, and the lexeme ends where it can take no more
  cases hl with
  | @word c cs hc hcs =>
    rw [endsBefore_word] at hend
    simp only [List.cons_append, atFront?, hc, if_true, takeWhile_append_eq hcs hend]
  | @blank c cs h =>
    have hc : isBlank c = true := h c (List.mem_cons_self)
    have hcs := takeWhile_append_eq (fun x hx => h x (List.mem_cons_of_mem c hx)) hend
    simp only [List.cons_append, atFront?, isWordStart_eq_false_of_isBlank hc, hc, if_true, hcs,
      Bool.false_eq_true, if_false]
  | mark h =>
    rcases mem_marks_cases h with rfl | rfl | rfl | rfl | rfl | rfl <;> rfl
  | @comment cs h =>
    have hcs : (cs ++ rest).takeWhile (!Text.isLineBreak ·) = cs :=
      takeWhile_append_eq (fun x hx => by rw [h x hx]; rfl) (fun c hc => by rw [hend c hc]; rfl)
    have hfront : atFront? ('/' :: '/' :: (cs ++ rest)) = some
        ⟨.lineComment, '/' :: '/' :: (cs ++ rest).takeWhile (!Text.isLineBreak ·)⟩ := rfl
    rw [hcs] at hfront
    exact hfront
  | carriageReturn =>
    cases rest with
    | nil => rfl
    | cons c rest =>
      have hc : c ≠ '\n' := fun h => hend rfl (congrArg some h)
      unfold atFront?
      simp [show isWordStart '\r' = false from rfl, show isBlank '\r' = false from rfl, hc]
  | lineFeed => rfl
  | returnAndFeed => rfl

/-- **The rule at the front.** The lexeme with which a text begins is formed, and it ends where the
rest begins. -/
theorem exists_of_atFront? {cs : List Char} {l : Lexeme} (h : atFront? cs = some l) :
    ∃ rest, cs = l.text ++ rest ∧ l.Formed ∧ l.EndsBefore rest.head? := by
  cases cs with
  | nil => simp [atFront?] at h
  | cons c cs =>
    unfold atFront? at h
    dsimp only at h
    split_ifs at h with hword hblank
    · cases h
      refine ⟨cs.dropWhile isWordChar, ?_, .word hword fun x hx => List.mem_takeWhile_imp hx,
        endsBefore_word.mpr head?_dropWhile_eq_false⟩
      simp
    · cases h
      refine ⟨cs.dropWhile isBlank, by simp, .blank fun x hx => ?_, head?_dropWhile_eq_false⟩
      rcases List.mem_cons.mp hx with rfl | hx
      · exact hblank
      · exact List.mem_takeWhile_imp hx
    · -- the arrow is branch 6 and a comment 7, then come the line breaks, and the last has no rule
      split at h
      case h_7 rest =>
        cases h
        refine ⟨rest.dropWhile (!Text.isLineBreak ·), by simp, .comment fun x hx => ?_,
          fun x hx => ?_⟩
        · simpa using List.mem_takeWhile_imp hx
        · simpa using head?_dropWhile_eq_false x hx
      case h_9 rest hrest =>
        cases h
        refine ⟨cs, rfl, .carriageReturn, fun _ hcs => ?_⟩
        obtain ⟨rest, rfl⟩ : ∃ rest, cs = '\n' :: rest := List.head?_eq_some_iff.mp hcs
        exact hrest rest rfl
      case h_8 rest => cases h; exact ⟨rest, rfl, .returnAndFeed, fun h => by simp at h⟩
      case h_10 => cases h; exact ⟨cs, rfl, .lineFeed, fun h => by simp at h⟩
      case h_11 => cases h
      case h_6 rest => cases h; exact ⟨rest, rfl, .mark (by decide), trivial⟩
      all_goals
        cases h
        exact ⟨cs, rfl, .mark (by decide), trivial⟩

/-- No rule applies at a stray character and nowhere else. -/
theorem atFront?_cons_eq_none_iff {c : Char} {cs : List Char} :
    atFront? (c :: cs) = none ↔ isStray c cs.head? = true := by
  unfold atFront?
  dsimp only
  split_ifs with hword hblank
  · simp [isStray, hword]
  · simp [isStray, hblank]
  · split
    case h_11 h1 h2 h3 h4 h5 h6 h7 h8 h9 h10 =>
      -- the rules of two characters are excluded for lists, `isStray` speaks of the second one
      have hnext : ∀ x, cs.head? = some x → ∃ rest, cs = x :: rest := fun x hx =>
        List.head?_eq_some_iff.mp hx
      grind [isStray, Text.isLineBreak]
    all_goals simp [isStray, Text.isLineBreak]

/-! ### Tilings -/

/-- The text that lexemes make up together. -/
def texts (ls : List Lexeme) : List Char :=
  ls.flatMap (·.text)

@[simp] theorem texts_nil : texts [] = [] := rfl

@[simp] theorem texts_cons (l : Lexeme) (ls : List Lexeme) :
    texts (l :: ls) = l.text ++ texts ls := rfl

@[simp] theorem texts_append (ls ms : List Lexeme) : texts (ls ++ ms) = texts ls ++ texts ms :=
  List.flatMap_append

/-- Characters at each of which no rule applies, in front of a further character. -/
def Strays : List Char → Option Char → Prop
  | [], _ => True
  | c :: cs, next => isStray c (cs.head?.or next) = true ∧ Strays cs next

/-- Lexemes one behind the other, none of which reaches into the next. -/
inductive Tiled : List Lexeme → Prop
  | nil : Tiled []
  | rule {l : Lexeme} {ls : List Lexeme} (hl : l.Formed) (hend : l.EndsBefore (texts ls).head?)
      (hls : Tiled ls) : Tiled (l :: ls)
  | strays {cs : List Char} {ls : List Lexeme} (hne : cs ≠ []) (hcs : Strays cs (texts ls).head?)
      (hnext : ∀ l ∈ ls.head?, l.kind ≠ .unknown) (hls : Tiled ls) :
      Tiled (⟨.unknown, cs⟩ :: ls)

/-- A lexeme that a rule forms is neither a stray one nor the end of the input. -/
theorem Formed.kind_ne {l : Lexeme} (h : l.Formed) :
    l.kind ≠ .unknown ∧ l.kind ≠ .endOfInput := by
  cases h with
  | @word c cs =>
    rcases wordKind_cases (c :: cs) with h | h | h | h <;> simp [h]
  | mark h =>
    rcases mem_marks_cases h with rfl | rfl | rfl | rfl | rfl | rfl <;> simp
  | _ => simp

theorem Formed.kind_ne_unknown {l : Lexeme} (h : l.Formed) : l.kind ≠ .unknown :=
  h.kind_ne.1

/-- A line break has one of three texts, and a carriage return alone stands before no line feed. -/
theorem Tiled.newline_cases {l : Lexeme} {ls : List Lexeme} (h : Tiled (l :: ls))
    (hkind : l.kind = .newline) :
    l = ⟨.newline, ['\n']⟩ ∨ l = ⟨.newline, ['\r', '\n']⟩ ∨
      l = ⟨.newline, ['\r']⟩ ∧ (texts ls).head? ≠ some '\n' := by
  cases h with
  | strays => cases hkind
  | rule hl hend _ =>
    -- the kinds of all other rules are different
    cases hl with
    | @word c cs =>
      rcases wordKind_cases (c :: cs) with hword | hword | hword | hword <;>
        exact absurd (hword.symm.trans hkind) (by decide)
    | blank => cases hkind
    | mark hmark =>
      rcases mem_marks_cases hmark with rfl | rfl | rfl | rfl | rfl | rfl <;> cases hkind
    | comment => cases hkind
    | lineFeed => exact .inl rfl
    | returnAndFeed => exact .inr (.inl rfl)
    | carriageReturn => exact .inr (.inr ⟨rfl, hend rfl⟩)

theorem Tiled.tail {l : Lexeme} {ls : List Lexeme} (h : Tiled (l :: ls)) : Tiled ls := by
  cases h with
  | rule _ _ hls => exact hls
  | strays _ _ _ hls => exact hls

theorem Tiled.text_ne_nil {l : Lexeme} {ls : List Lexeme} (h : Tiled (l :: ls)) : l.text ≠ [] := by
  cases h with
  | rule hl => exact hl.text_ne_nil
  | strays hne => exact hne

/-- No tile is empty. -/
theorem Tiled.text_ne_nil_of_mem {l : Lexeme} {ls : List Lexeme} (h : Tiled ls) (hl : l ∈ ls) :
    l.text ≠ [] := by
  induction ls with
  | nil => cases hl
  | cons m ls ih =>
    rcases List.mem_cons.mp hl with rfl | hl
    · exact h.text_ne_nil
    · exact ih h.tail hl

/-- A character at which no rule applies joins the tiles behind it. -/
theorem Tiled.consUnknown {c : Char} {ls : List Lexeme} (h : Tiled ls)
    (hc : isStray c (texts ls).head? = true) :
    Tiled (consUnknown c ls) ∧ texts (Lexeme.consUnknown c ls) = c :: texts ls := by
  unfold Lexeme.consUnknown
  split
  · -- the tile behind the character is a stray one too and takes it in
    rename_i cs rest
    refine ⟨?_, rfl⟩
    cases h with
    | rule hl => exact absurd rfl hl.kind_ne_unknown
    | strays hne hcs hnext hrest =>
      refine .strays (List.cons_ne_nil _ _) ⟨?_, hcs⟩ hnext hrest
      rw [texts_cons, List.head?_append] at hc
      exact hc
  · rename_i hls
    refine ⟨.strays (List.cons_ne_nil _ _) ⟨hc, trivial⟩ (fun l hl hkind => ?_) h, rfl⟩
    obtain ⟨rest, rfl⟩ := List.head?_eq_some_iff.mp hl
    obtain ⟨kind, text⟩ := l
    cases hkind
    exact hls text rest rfl

/-- Where a rule applies, its lexeme is cut off and the rest is scanned. -/
theorem scan_cons_of_atFront? {c : Char} {cs : List Char} {l : Lexeme}
    (h : atFront? (c :: cs) = some l) :
    scan (c :: cs) = l :: scan ((c :: cs).drop l.text.length) := by
  rw [scan]
  split
  · rename_i l' h'
    rw [h] at h'
    cases h'
    rfl
  · rename_i h'
    rw [h] at h'
    cases h'

/-- Where no rule applies, the character joins what is unknown behind it. -/
theorem scan_cons_of_none {c : Char} {cs : List Char} (h : atFront? (c :: cs) = none) :
    scan (c :: cs) = consUnknown c (scan cs) := by
  rw [scan]
  split
  · rename_i l' h'
    rw [h] at h'
    cases h'
  · rfl

/-- A lexeme that ends where the rest begins is cut off. -/
theorem scan_append_of_formed {l : Lexeme} {rest : List Char} (hl : l.Formed)
    (hend : l.EndsBefore rest.head?) : scan (l.text ++ rest) = l :: scan rest := by
  have hfront := atFront?_of_formed hl hend
  obtain ⟨c, cs, hcs⟩ := List.exists_cons_of_ne_nil hl.text_ne_nil
  have hdrop : (l.text ++ rest).drop l.text.length = rest := List.drop_left
  rw [hcs, List.cons_append] at hfront hdrop ⊢
  rw [scan_cons_of_atFront? hfront, hcs, hdrop]

/-- Scanning tiles a text. -/
theorem tiled_scan (cs : List Char) : Tiled (scan cs) ∧ texts (scan cs) = cs := by
  -- The scanner goes on behind the lexeme that it cut off, so the induction is on the length.
  induction hn : cs.length using Nat.strongRecOn generalizing cs with
  | ind n ih =>
    cases cs with
    | nil => exact ⟨by simpa using Tiled.nil, by simp⟩
    | cons c cs =>
      cases hfront : atFront? (c :: cs) with
      | some l =>
        obtain ⟨rest, hcs, hl, hend⟩ := exists_of_atFront? hfront
        have hlt : rest.length < n := by
          have := List.length_pos_iff.mpr hl.text_ne_nil
          have := congrArg List.length hcs
          rw [List.length_append] at this
          omega
        obtain ⟨htiled, htexts⟩ := ih _ hlt rest rfl
        rw [hcs, scan_append_of_formed hl hend]
        refine ⟨.rule hl ?_ htiled, ?_⟩
        · rw [htexts]
          exact hend
        · rw [texts_cons, htexts]
      | none =>
        have hc := atFront?_cons_eq_none_iff.mp hfront
        obtain ⟨htiled, htexts⟩ := ih _ (by simp [← hn]) cs rfl
        rw [scan_cons_of_none hfront]
        rw [← htexts] at hc
        have := htiled.consUnknown hc
        rwa [htexts] at this

/-- Characters at which no rule applies make one lexeme, up to where a rule does. -/
theorem scan_append_of_strays {cs rest : List Char} (hne : cs ≠ []) (h : Strays cs rest.head?)
    (hnext : ∀ l ∈ (scan rest).head?, l.kind ≠ .unknown) :
    scan (cs ++ rest) = ⟨.unknown, cs⟩ :: scan rest := by
  induction cs with
  | nil => exact absurd rfl hne
  | cons c cs ih =>
    have hfront : atFront? (c :: (cs ++ rest)) = none := by
      rw [atFront?_cons_eq_none_iff, List.head?_append]
      exact h.1
    rw [List.cons_append, scan_cons_of_none hfront]
    -- The last of them makes a lexeme of its own, to which those in front of it are added.
    cases cs with
    | nil =>
      unfold consUnknown
      split
      · rename_i text ls hrest
        rw [List.nil_append] at hrest
        exact absurd rfl (hnext ⟨.unknown, text⟩ (by rw [hrest]; rfl))
      · rfl
    | cons d cs =>
      rw [ih (List.cons_ne_nil _ _) h.2]
      rfl

/-- **Tiles are scanned as they are.** -/
theorem scan_texts {ls : List Lexeme} (h : Tiled ls) : scan (texts ls) = ls := by
  induction h with
  | nil => exact scan_nil
  | rule hl hend _ ih => rw [texts_cons, scan_append_of_formed hl hend, ih]
  | strays hne hcs hnext _ ih =>
    rw [texts_cons, scan_append_of_strays hne hcs (by rwa [ih]), ih]

/-- **Scanning is tiling.** The lexemes of a text are the tiled list that makes up the text, and
there is no other. -/
theorem scan_eq_iff {cs : List Char} {ls : List Lexeme} :
    scan cs = ls ↔ Tiled ls ∧ texts ls = cs := by
  constructor
  · rintro rfl
    exact tiled_scan cs
  · rintro ⟨hls, rfl⟩
    exact scan_texts hls

/-! ### Cutting and joining -/

theorem head?_texts {l : Lexeme} (h : l.text ≠ []) (ls : List Lexeme) :
    (texts (l :: ls)).head? = l.text.head? := by
  obtain ⟨c, cs, hcs⟩ := List.exists_cons_of_ne_nil h
  rw [texts_cons, hcs]
  rfl

/-- What is stray in front of a character is stray at the end. -/
theorem isStray_none {c : Char} {next : Option Char} (h : isStray c next = true) :
    isStray c none = true := by
  revert h
  -- only two tests look at the next character, and at the end both say no
  simp only [isStray]
  grind

/-- The same for several characters, of which only the last one sees what follows. -/
theorem strays_none {cs : List Char} {next : Option Char} (h : Strays cs next) :
    Strays cs none := by
  induction cs with
  | nil => trivial
  | cons c cs ih =>
    refine ⟨?_, ih h.2⟩
    cases cs with
    | nil => exact isStray_none h.1
    | cons d cs => exact h.1

/-- The back of a tiling is a tiling. -/
theorem Tiled.right {xs ys : List Lexeme} (h : Tiled (xs ++ ys)) : Tiled ys := by
  induction xs with
  | nil => exact h
  | cons x xs ih => exact ih h.tail

/-- The front of a tiling is a tiling: at the end of the text everything ends. -/
theorem Tiled.left {xs ys : List Lexeme} (h : Tiled (xs ++ ys)) : Tiled xs := by
  induction xs with
  | nil => exact .nil
  | cons x xs ih =>
    have hxs := ih h.tail
    -- Behind `x` the text ends now, or the same character stands there as before.
    have hnext : (texts xs).head? = none ∨ (texts (xs ++ ys)).head? = (texts xs).head? := by
      cases xs with
      | nil => exact .inl rfl
      | cons z zs =>
        right
        rw [List.cons_append, head?_texts hxs.text_ne_nil, head?_texts hxs.text_ne_nil]
    rw [List.cons_append] at h
    cases h with
    | rule hl hend _ =>
      refine .rule hl ?_ hxs
      rcases hnext with hnone | hsame
      · exact hnone ▸ x.endsBefore_none
      · exact hsame ▸ hend
    | strays hne hcs hkind _ =>
      refine .strays hne ?_ (fun l hl => hkind l ?_) hxs
      · rcases hnext with hnone | hsame
        · exact hnone ▸ strays_none hcs
        · exact hsame ▸ hcs
      · rw [List.head?_append, Option.mem_def.mp hl]
        rfl

/-- A tile that begins with a line break is a line break. -/
theorem Tiled.kind_eq_newline {l : Lexeme} {ls : List Lexeme} (h : Tiled (l :: ls)) {c : Char}
    {cs : List Char} (hl : l.text = c :: cs) (hc : Text.isLineBreak c = true) :
    l.kind = .newline := by
  cases h with
  | rule hformed _ _ =>
    -- no other rule begins with such a character, and it is not stray either
    cases hformed with
    | word hstart _ =>
      cases hl
      simp only [Text.isLineBreak, Bool.or_eq_true, beq_iff_eq] at hc
      rcases hc with rfl | rfl <;> exact absurd hstart (by decide)
    | blank hblank =>
      cases hl
      have hblank := hblank c List.mem_cons_self
      simp only [Text.isLineBreak, Bool.or_eq_true, beq_iff_eq] at hc
      rcases hc with rfl | rfl <;> exact absurd hblank (by decide)
    | mark h =>
      rcases mem_marks_cases h with rfl | rfl | rfl | rfl | rfl | rfl <;> cases hl <;>
        exact absurd hc (by decide)
    | comment _ =>
      cases hl
      exact absurd hc (by decide)
    | carriageReturn => rfl
    | lineFeed => rfl
    | returnAndFeed => rfl
  | strays _ hcs _ _ =>
    cases hl
    have hstray := hcs.1
    simp [isStray, hc] at hstray

/-- Only a line break follows a comment. -/
theorem Tiled.kind_eq_newline_of_lineComment {l m : Lexeme} {ls : List Lexeme}
    (h : Tiled (l :: m :: ls)) (hl : l.kind = .lineComment) : m.kind = .newline := by
  obtain ⟨c, cs, hcs⟩ := List.exists_cons_of_ne_nil h.tail.text_ne_nil
  refine h.tail.kind_eq_newline hcs ?_
  cases h with
  | rule _ hend _ =>
    unfold EndsBefore at hend
    rw [hl, texts_cons, hcs] at hend
    exact hend c rfl
  | strays => cases hl

/-- The last tile may be exchanged for other tiles that begin with the same character. -/
theorem Tiled.exchange {xs ys : List Lexeme} {l m : Lexeme} (h : Tiled (xs ++ [l]))
    (hm : Tiled (m :: ys)) (hhead : m.text.head? = l.text.head?) (hkind : m.kind ≠ .unknown) :
    Tiled (xs ++ m :: ys) := by
  induction xs with
  | nil => exact hm
  | cons x xs ih =>
    have htail := ih h.tail
    -- All that a tile asks of those behind it is their first character.
    have hnext : (texts (xs ++ m :: ys)).head? = (texts (xs ++ [l])).head? := by
      cases xs with
      | nil =>
        have hl : l.text ≠ [] := (Tiled.right h).text_ne_nil
        rw [List.nil_append, List.nil_append, head?_texts hm.text_ne_nil, head?_texts hl, hhead]
      | cons z zs =>
        rw [List.cons_append, List.cons_append, head?_texts htail.text_ne_nil,
          head?_texts htail.text_ne_nil]
    rw [List.cons_append] at h ⊢
    cases h with
    | rule hl hend _ => exact .rule hl (hnext ▸ hend) htail
    | strays hne hcs hunknown _ =>
      refine .strays hne (hnext ▸ hcs) (fun n hn => ?_) htail
      cases xs with
      | nil =>
        cases hn
        exact hkind
      | cons z zs => exact hunknown n hn

/-- Lexemes that may stand in front of any text: punctuation, which is complete in itself, and
blanks and line breaks, to which at most further trivia of the kind is added. -/
def isSealed (l : Lexeme) : Bool :=
  l.kind.isPunctuation || l.kind == .blank || l.kind == .newline

/-- What is sealed is formed by a rule. -/
theorem Tiled.formed_of_isSealed {l : Lexeme} {ls : List Lexeme} (h : Tiled (l :: ls))
    (hl : l.isSealed = true) : l.Formed := by
  cases h with
  | rule hl => exact hl
  | strays => exact absurd hl (by simp [isSealed, TokenKind.isPunctuation])

/-- A lexeme that is sealed and does not end in front of a text is trivia, and the text begins with
more of it. -/
theorem exists_of_not_endsBefore {l : Lexeme} {cs : List Char} (hl : l.Formed)
    (hsealed : l.isSealed = true) (hend : ¬ l.EndsBefore cs.head?) :
    ∃ m n ys, scan cs = m :: ys ∧ Tiled (n :: ys) ∧ n.text = l.text ++ m.text ∧ m.kind = l.kind
      ∧ n.kind = l.kind ∧ l.kind.isTrivia = true := by
  have htail := (tiled_scan cs).1
  cases hl with
  | @word c w hc hw =>
    -- the kinds of words are not sealed
    rcases wordKind_cases (c :: w) with hkind | hkind | hkind | hkind <;>
      simp [isSealed, TokenKind.isPunctuation, hkind] at hsealed
  | mark h => exact absurd (endsBefore_mark h _) hend
  | comment h => exact absurd hsealed (by simp [isSealed, TokenKind.isPunctuation])
  | @blank c ds h =>
    -- the blanks at the front of the text join those of the lexeme
    obtain ⟨x, hx, hblank⟩ : ∃ x ∈ cs.head?, isBlank x = true := by
      simpa [EndsBefore] using hend
    obtain ⟨rest, rfl⟩ := List.head?_eq_some_iff.mp hx
    have hfront : atFront? (x :: rest) = some ⟨.blank, x :: rest.takeWhile isBlank⟩ := by
      simp [atFront?, isWordStart_eq_false_of_isBlank hblank, hblank]
    rw [scan_cons_of_atFront? hfront] at htail ⊢
    refine ⟨_, ⟨.blank, (c :: ds) ++ x :: rest.takeWhile isBlank⟩, _, rfl, ?_, rfl, rfl, rfl, rfl⟩
    cases htail with
    | rule hm hmend hys =>
      refine .rule (.blank fun y hy => ?_) hmend hys
      rcases List.mem_append.mp (show y ∈ (c :: ds) ++ x :: rest.takeWhile isBlank from hy)
        with hy | hy
      · exact h y hy
      · rcases List.mem_cons.mp hy with rfl | hy
        · exact hblank
        · exact List.mem_takeWhile_imp hy
  | carriageReturn =>
    -- a line feed behind it makes the one line break of two characters
    have hx : cs.head? = some '\n' := by
      simpa [EndsBefore] using hend
    obtain ⟨rest, rfl⟩ := List.head?_eq_some_iff.mp hx
    have hfront : atFront? ('\n' :: rest) = some ⟨.newline, ['\n']⟩ := rfl
    rw [scan_cons_of_atFront? hfront] at htail ⊢
    refine ⟨_, ⟨.newline, ['\r', '\n']⟩, _, rfl, ?_, rfl, rfl, rfl, rfl⟩
    exact .rule .returnAndFeed (fun h => by simp at h) htail.tail
  | lineFeed => exact absurd (fun h => by simp at h) hend
  | returnAndFeed => exact absurd (fun h => by simp at h) hend

/-- **Joining.** Behind a sealed lexeme any text is scanned as if it stood alone, except that trivia
at its front may become one with trivia of the same kind at the seam. -/
theorem scan_append {xs : List Lexeme} {l : Lexeme} (h : Tiled (xs ++ [l]))
    (hl : l.isSealed = true) (cs : List Char) :
    scan (texts (xs ++ [l]) ++ cs) = xs ++ l :: scan cs ∨
      ∃ m n ys, scan cs = m :: ys ∧ m.kind = l.kind ∧ n.kind = l.kind ∧ l.kind.isTrivia = true
        ∧ scan (texts (xs ++ [l]) ++ cs) = xs ++ n :: ys := by
  have hformed := h.right.formed_of_isSealed hl
  by_cases hend : l.EndsBefore cs.head?
  · -- the lexeme ends at the seam, and the two tilings together are a tiling
    left
    have htiled : Tiled (l :: scan cs) := by
      refine .rule hformed ?_ (tiled_scan cs).1
      rwa [(tiled_scan cs).2]
    rw [scan_eq_iff]
    refine ⟨h.exchange htiled rfl hformed.kind_ne_unknown, ?_⟩
    simp [(tiled_scan cs).2]
  · -- the lexeme goes on, and the longer one takes its place
    right
    obtain ⟨m, n, ys, hscan, htiled, htext, hm, hn, htrivia⟩ :=
      exists_of_not_endsBefore hformed hl hend
    refine ⟨m, n, ys, hscan, hm, hn, htrivia, ?_⟩
    have hcs : texts (m :: ys) = cs := hscan ▸ (tiled_scan cs).2
    rw [scan_eq_iff]
    refine ⟨h.exchange htiled ?_ ?_, ?_⟩
    · obtain ⟨c, ds, hds⟩ := List.exists_cons_of_ne_nil hformed.text_ne_nil
      rw [htext, hds]
      rfl
    · rw [hn]
      exact hformed.kind_ne_unknown
    · simp [htext, ← hcs]

end MatchCheck.Lexeme
