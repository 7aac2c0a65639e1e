import MatchCheck.Json.Printer
import MatchCheck.Json.Reader

/-!
# Written values

A value can be written in many ways, since blanks may stand between its parts. `Written` says which
texts are forms of a value. Both layouts write forms of the values they are given
(`written_compact`, `written_pretty`), and whatever form a text has, reading it gives back the value
that was written (`ofChars?_of_written`). So values survive being written and read again.

Values with literals that are kept as such, and with texts that are none, are left out: nothing here
writes them.
-/

namespace MatchCheck.Json

/-! ### Strings -/

theorem hexValue?_hexDigit (n : Nat) : hexValue? (hexDigit n) = some (n % 16) := by
  have hdigit : ∀ d < 16, hexValue? (Nat.digitChar d) = some d := by decide
  exact hdigit (n % 16) (Nat.mod_lt n (by decide))

/-- Four hexadecimal digits that are no half of a pair stand for a character. It does not matter
whether four more follow. -/
theorem readText_unicode {a b c d : Char} {n : Nat} (h : hexValue4? a b c d = some n)
    (hhigh : isHighSurrogate n = false) (hlow : isLowSurrogate n = false) (rest : List Char) :
    readText ('\\' :: 'u' :: a :: b :: c :: d :: rest) =
      (readText rest).map (consText (Char.ofNat n)) := by
  rw [readText.eq_def]
  -- of the cases of the reader only those of an escape by code fit, whatever follows it
  split
  · next heq => cases heq
  · next heq => cases heq
  · next heq =>
    cases heq
    simp [h, hhigh, hlow]
  · next heq =>
    cases heq
    simp [h, hhigh, hlow]
  · next hne heq =>
    cases heq
    exact (hne _ _ _ _ _ rfl rfl).elim
  · next hne heq =>
    cases heq
    exact (hne _ _ rfl rfl).elim

/-- A character that need not be escaped is read as itself. -/
theorem readText_plain {c : Char} (hquote : c ≠ '"') (hslash : c ≠ '\\') (hc : 0x20 ≤ c.toNat)
    (rest : List Char) : readText (c :: rest) = (readText rest).map (consText c) := by
  rw [readText.eq_def]
  -- all cases but the last begin with a quote or a backslash
  split
  · next heq => cases heq
  · next heq =>
    cases heq
    exact absurd rfl hquote
  · next heq =>
    cases heq
    exact absurd rfl hslash
  · next heq =>
    cases heq
    exact absurd rfl hslash
  · next heq =>
    cases heq
    exact absurd rfl hslash
  · next heq =>
    cases heq
    rw [if_neg]
    simp [hslash, hc]

/-- An escaped character is read as itself. -/
theorem readText_escape (c : Char) (rest : List Char) :
    readText (escape c ++ rest) = (readText rest).map (consText c) := by
  unfold escape
  split
  -- seven characters have an escape of two characters
  iterate 7 simp [readText, escaped?]
  next hquote hslash _ _ _ _ _ =>
    split
    · next hlt =>
      have hcode : hexValue4? '0' '0' (hexDigit (c.toNat / 16)) (hexDigit c.toNat) =
          some c.toNat := by
        simp only [hexValue4?, hexValue?_hexDigit, show hexValue? '0' = some 0 by decide,
          Option.bind_eq_bind, Option.bind_some, Option.pure_def, Option.some.injEq]
        omega
      have hhigh : isHighSurrogate c.toNat = false := by simp [isHighSurrogate]; omega
      have hlow : isLowSurrogate c.toNat = false := by simp [isLowSurrogate]; omega
      have hread := readText_unicode hcode hhigh hlow rest
      rwa [Char.ofNat_toNat] at hread
    · next hge => exact readText_plain hquote hslash (Nat.le_of_not_lt hge) rest

/-- **Strings are read as they were written.** -/
theorem readText_flatMap_escape (cs rest : List Char) :
    readText (cs.flatMap escape ++ '"' :: rest) = some (some cs, rest) := by
  induction cs with
  | nil => simp [readText]
  | cons c cs ih =>
    rw [List.flatMap_cons, List.append_assoc, readText_escape, ih]
    rfl

/-! ### Numbers -/

/-- A text that does not go on with a number. -/
def Ends (rest : List Char) : Prop :=
  ∀ c ∈ rest.head?, c.isDigit = false ∧ c ≠ '.' ∧ c ≠ 'e' ∧ c ≠ 'E'

/-- The digits of a number stand for it. -/
theorem ofDigits_digits (n : Nat) : ofDigits (digits n) = n := by
  have h := @Nat.ofDigitChars_ten_toDigits n
  rw [Nat.ofDigitChars_eq_foldl] at h
  simpa only [ofDigits, digits, Nat.mul_comm] using h

theorem isDigit_of_mem_digits {n : Nat} {c : Char} (h : c ∈ digits n) : c.isDigit = true :=
  Nat.isDigit_of_mem_toDigits (by decide) (by decide) h

/-- Only zero is written with a zero in front. -/
theorem head?_digits {n : Nat} (hn : n ≠ 0) : (digits n).head? ≠ some '0' := by
  induction n using Nat.strongRecOn with
  | ind n ih =>
    unfold digits at *
    by_cases h : n < 10
    · rw [Nat.toDigits_of_lt_base h]
      simpa using hn
    · -- the first digit is the one of the tenth part, which is not zero either
      rw [Nat.toDigits_of_base_le (by decide) (Nat.le_of_not_lt h), List.head?_append]
      have hdigits := ih (n / 10) (by omega) (by omega)
      cases hd : (Nat.toDigits 10 (n / 10)).head? with
      | none => exact absurd (List.head?_eq_none_iff.mp hd) Nat.toDigits_ne_nil
      | some c => rwa [hd] at hdigits

/-- A written number begins with a digit. -/
theorem digits_eq_cons (n : Nat) :
    ∃ c cs, digits n = c :: cs ∧ c.isDigit = true ∧ (n ≠ 0 → c ≠ '0') := by
  cases h : digits n with
  | nil => exact absurd h Nat.toDigits_ne_nil
  | cons c cs =>
    refine ⟨c, cs, rfl, isDigit_of_mem_digits (h ▸ List.mem_cons_self), fun hn hc => ?_⟩
    exact head?_digits hn (by rw [h, List.head?_cons, hc])

/-- Digits are read up to where something else begins. -/
theorem digits1?_append {ds rest : List Char} (hds : ds ≠ [])
    (hdigits : ∀ c ∈ ds, c.isDigit = true) (hrest : Ends rest) :
    digits1? (ds ++ rest) = some (ds, rest) := by
  -- what follows does not go on with a digit
  have hstop : rest.takeWhile Char.isDigit = [] ∧ rest.dropWhile Char.isDigit = rest := by
    cases rest with
    | nil => exact ⟨rfl, rfl⟩
    | cons c rest => simp [(hrest c rfl).1]
  rw [digits1?, List.takeWhile_append_of_pos hdigits, List.dropWhile_append_of_pos hdigits, hstop.1,
    hstop.2, List.append_nil]
  cases ds with
  | nil => exact absurd rfl hds
  | cons d ds => rfl

/-- A number in front of its end is read as a whole. -/
theorem readWhole_digits (n : Nat) {rest : List Char} (hrest : Ends rest) :
    readWhole (digits n ++ rest) = some (digits n, rest) := by
  -- a zero is read alone; any other number does not begin with a zero
  by_cases hn : n = 0
  · subst hn
    have hhead : (rest.head?.map Char.isDigit).getD false = false := by
      cases rest with
      | nil => rfl
      | cons c rest => exact (hrest c rfl).1
    simp [digits, readWhole, hhead]
  · obtain ⟨c, cs, hdigits, -, hzero⟩ := digits_eq_cons n
    have hread := digits1?_append Nat.toDigits_ne_nil (fun c => isDigit_of_mem_digits (n := n))
      hrest
    rw [← digits, hdigits] at hread
    rw [hdigits, List.cons_append, readWhole]
    · exact hread
    · intro cs' heq
      exact hzero hn (List.cons.inj heq).1

/-- **Numbers are read as they were written**, if they are not run into what follows. -/
theorem readNumber_digits (n : Nat) {rest : List Char} (hrest : Ends rest) :
    readNumber (digits n ++ rest) = some (natural n, rest) := by
  -- what follows begins neither a fraction nor an exponent
  have hfraction : readFraction rest = some ([], rest) := by
    unfold readFraction
    split
    · exact absurd rfl (hrest _ rfl).2.1
    · rfl
  have hexponent : readExponent rest = some ([], rest) := by
    cases rest with
    | nil => rfl
    | cons c rest => simp [readExponent, (hrest c rfl).2.2]
  have hunsigned : readUnsigned (digits n ++ rest) = some (natural n, rest) := by
    simp [readUnsigned, readWhole_digits n hrest, hfraction, hexponent, ofDigits_digits]
  -- a digit comes first, so there is no sign to be read
  obtain ⟨c, cs, hdigits, hc, -⟩ := digits_eq_cons n
  rw [hdigits, List.cons_append] at hunsigned ⊢
  rw [readNumber]
  · exact hunsigned
  · intro cs' heq
    rw [(List.cons.inj heq).1] at hc
    cases hc

/-! ### Blanks -/

/-- Nothing but blanks. -/
def Blank (b : List Char) : Prop :=
  ∀ c ∈ b, isBlank c = true

theorem Blank.nil : Blank [] := by
  simp [Blank]

/-- Blanks are passed over, up to the first other character. -/
theorem skipBlanks_append {b : List Char} (hb : Blank b) {c : Char} (hc : isBlank c = false)
    (rest : List Char) : skipBlanks (b ++ c :: rest) = c :: rest := by
  rw [skipBlanks, List.dropWhile_append_of_pos hb, List.dropWhile_cons_of_neg (by simp [hc])]

/-- A character ends a number if it continues none. -/
theorem ends_cons {c : Char} (h : c.isDigit = false ∧ c ≠ '.' ∧ c ≠ 'e' ∧ c ≠ 'E')
    (rest : List Char) : Ends (c :: rest) := by
  intro d hd
  cases hd
  exact h

/-- Blanks end a number. -/
theorem Blank.ends_append {b : List Char} (hb : Blank b) {rest : List Char} (hrest : Ends rest) :
    Ends (b ++ rest) := by
  cases b with
  | nil => exact hrest
  | cons c b =>
    refine ends_cons ?_ _
    have hc := hb c List.mem_cons_self
    simp only [isBlank, Bool.or_eq_true, beq_iff_eq] at hc
    -- no blank continues a number
    rcases hc with ((rfl | rfl) | rfl) | rfl <;> decide

/-! ### Forms of values -/

/-- What a text can be a form of: a value, or the items or members that stand in an array or object,
up to its end. -/
inductive Part where
  | value (j : Json)
  | items (js : List Json)
  | members (ms : List (String × Json))

/-- **The forms of a value.** Blanks may stand wherever parts meet. -/
inductive Written : Part → List Char → Prop
  | null : Written (.value .null) (scalar .null)
  | bool (b : Bool) : Written (.value (.bool b)) (scalar (.bool b))
  | natural (n : Nat) : Written (.value (.natural n)) (digits n)
  | text (s : String) : Written (.value (.text s)) (quoted s)
  | emptyArray {b : List Char} (hb : Blank b) : Written (.value (.array [])) ('[' :: b ++ [']'])
  | array {b cs : List Char} {js : List Json} (hb : Blank b) (h : Written (.items js) cs) :
      Written (.value (.array js)) ('[' :: b ++ cs)
  | emptyObject {b : List Char} (hb : Blank b) :
      Written (.value (.object [])) ('\x7b' :: b ++ ['\x7d'])
  | object {b cs : List Char} {ms : List (String × Json)} (hb : Blank b)
      (h : Written (.members ms) cs) : Written (.value (.object ms)) ('\x7b' :: b ++ cs)
  | lastItem {j : Json} {cs b : List Char} (h : Written (.value j) cs) (hb : Blank b) :
      Written (.items [j]) (cs ++ b ++ [']'])
  | item {j : Json} {js : List Json} {cs b₁ b₂ ds : List Char} (h : Written (.value j) cs)
      (hb₁ : Blank b₁) (hb₂ : Blank b₂) (hrest : Written (.items js) ds) :
      Written (.items (j :: js)) (cs ++ b₁ ++ ',' :: b₂ ++ ds)
  | lastMember (name : String) {j : Json} {b₁ b₂ cs b₃ : List Char} (hb₁ : Blank b₁)
      (hb₂ : Blank b₂) (h : Written (.value j) cs) (hb₃ : Blank b₃) :
      Written (.members [(name, j)]) (quoted name ++ b₁ ++ ':' :: b₂ ++ cs ++ b₃ ++ ['\x7d'])
  | member (name : String) {j : Json} {ms : List (String × Json)} {b₁ b₂ cs b₃ b₄ ds : List Char}
      (hb₁ : Blank b₁) (hb₂ : Blank b₂) (h : Written (.value j) cs) (hb₃ : Blank b₃)
      (hb₄ : Blank b₄) (hrest : Written (.members ms) ds) :
      Written (.members ((name, j) :: ms))
        (quoted name ++ b₁ ++ ':' :: b₂ ++ cs ++ b₃ ++ ',' :: b₄ ++ ds)

/-- A digit is neither a blank nor a bracket. -/
theorem not_blank_of_isDigit {c : Char} (h : c.isDigit = true) :
    isBlank c = false ∧ c ≠ ']' ∧ c ≠ '\x7d' := by
  refine ⟨?_, ?_, ?_⟩
  · simp only [isBlank, Bool.or_eq_false_iff, beq_eq_false_iff_ne]
    refine ⟨⟨⟨?_, ?_⟩, ?_⟩, ?_⟩ <;> (rintro rfl; cases h)
  · rintro rfl
    cases h
  · rintro rfl
    cases h

/-- A form begins neither with a blank nor with a closing bracket. -/
theorem Written.eq_cons {part : Part} {cs : List Char} (h : Written part cs) :
    ∃ c rest, cs = c :: rest ∧ isBlank c = false ∧ c ≠ ']' ∧ c ≠ '\x7d' := by
  -- by the first character of each form: items and members begin like their first value
  induction h with
  | null => exact ⟨'n', _, rfl, by decide⟩
  | bool b => cases b <;> exact ⟨_, _, rfl, by decide⟩
  | natural n =>
    obtain ⟨c, cs, hdigits, hc, -⟩ := digits_eq_cons n
    exact ⟨c, cs, hdigits, not_blank_of_isDigit hc⟩
  | text s => exact ⟨'"', _, rfl, by decide⟩
  | emptyArray _ | array _ _ _ => exact ⟨'[', _, rfl, by decide⟩
  | emptyObject _ | object _ _ _ => exact ⟨'\x7b', _, rfl, by decide⟩
  | lastItem _ _ ih | item _ _ _ _ ih =>
    obtain ⟨c, rest, rfl, hc⟩ := ih
    exact ⟨c, _, rfl, hc⟩
  | lastMember _ _ _ _ _ | member _ _ _ _ _ _ _ => exact ⟨'"', _, rfl, by decide⟩

/-- Blanks in front of a form are passed over. -/
theorem Written.skipBlanks_append {part : Part} {b cs : List Char} (h : Written part cs)
    (hb : Blank b) (rest : List Char) : skipBlanks (b ++ (cs ++ rest)) = cs ++ rest := by
  obtain ⟨c, cs, rfl, hc, -⟩ := h.eq_cons
  exact Json.skipBlanks_append hb hc (cs ++ rest)

/-! ### Reading forms -/

/-- A text is read as the part that it is a form of, and what follows is left. -/
def Part.Reads (steps : Nat) (cs : List Char) : Part → Prop
  | value j => ∀ rest, Ends rest → readValue steps (cs ++ rest) = some (j, rest)
  | items js => ∀ rest, readItems steps (cs ++ rest) = some (js, rest)
  | members ms => ∀ rest, readMembers steps (cs ++ rest) = some (some ms, rest)

theorem after?_append (word rest : List Char) : after? word (word ++ rest) = some rest := by
  induction word with
  | nil => rfl
  | cons c word ih => rw [List.cons_append, after?, if_pos rfl, ih]

section Steps

variable {n : Nat} {rest : List Char}

/-- A word is read if its first letter says which word is to be expected. -/
theorem readValue_word (word : String) (value : Json) {c : Char} {cs : List Char}
    (hword : word.toList = c :: cs)
    (hfirst : ∀ more, readValue (n + 1) (c :: more) = readWord word value (c :: more)) :
    readValue (n + 1) (word.toList ++ rest) = some (value, rest) := by
  have hread : readWord word value (word.toList ++ rest) = some (value, rest) :=
    congrArg (Option.map _) (after?_append word.toList rest)
  rw [hword, List.cons_append] at hread ⊢
  rw [hfirst, hread]

/-- A number is read as a value. -/
theorem readValue_digits (k : Nat) (hrest : Ends rest) :
    readValue (n + 1) (digits k ++ rest) = some (natural k, rest) := by
  rw [← readNumber_digits k hrest]
  obtain ⟨c, cs, hdigits, hc, -⟩ := digits_eq_cons k
  rw [hdigits, List.cons_append, readValue]
  -- a value that begins with a digit is nothing but a number
  all_goals
    intro cs' heq
    rw [(List.cons.inj heq).1] at hc
    cases hc

theorem quoted_append (s : String) (rest : List Char) :
    quoted s ++ rest = '"' :: (s.toList.flatMap escape ++ '"' :: rest) := by
  simp [quoted]

theorem readValue_quoted (s : String) :
    readValue (n + 1) (quoted s ++ rest) = some (text s, rest) := by
  rw [quoted_append, readValue, readText_flatMap_escape]
  simp [ofText]

/-- An array may be empty, with blanks inside. -/
theorem readValue_emptyArray {b : List Char} (hb : Blank b) :
    readValue (n + 1) ('[' :: b ++ [']'] ++ rest) = some (array [], rest) := by
  have hskip : skipBlanks (b ++ [']'] ++ rest) = ']' :: rest := by
    rw [List.append_assoc]
    exact skipBlanks_append hb (by decide) rest
  rw [List.cons_append, List.cons_append, readValue, hskip]
  rfl

/-- An array is read if its items are, since these do not begin with a bracket. -/
theorem readValue_array {b cs : List Char} {js : List Json} (hb : Blank b)
    (h : Written (.items js) cs) (hread : readItems n (cs ++ rest) = some (js, rest)) :
    readValue (n + 1) ('[' :: b ++ cs ++ rest) = some (array js, rest) := by
  have hskip := h.skipBlanks_append hb rest
  -- items do not begin with a closing bracket, so the array is not empty
  obtain ⟨c, cs, rfl, -, hne, -⟩ := h.eq_cons
  rw [List.cons_append, List.cons_append, List.append_assoc, readValue, hskip]
  split
  · next heq => exact absurd (List.cons.inj heq).1 hne
  · exact congrArg (Option.map _) hread

theorem readValue_emptyObject {b : List Char} (hb : Blank b) :
    readValue (n + 1) ('\x7b' :: b ++ ['\x7d'] ++ rest) = some (object [], rest) := by
  have hskip : skipBlanks (b ++ ['\x7d'] ++ rest) = '\x7d' :: rest := by
    rw [List.append_assoc]
    exact skipBlanks_append hb (by decide) rest
  rw [List.cons_append, List.cons_append, readValue, hskip]
  rfl

/-- An object is read if its members are. -/
theorem readValue_object {b cs : List Char} {ms : List (String × Json)} (hb : Blank b)
    (h : Written (.members ms) cs) (hread : readMembers n (cs ++ rest) = some (some ms, rest)) :
    readValue (n + 1) ('\x7b' :: b ++ cs ++ rest) = some (object ms, rest) := by
  have hskip := h.skipBlanks_append hb rest
  -- likewise for members and a closing brace
  obtain ⟨c, cs, rfl, -, -, hne⟩ := h.eq_cons
  rw [List.cons_append, List.cons_append, List.append_assoc, readValue, hskip]
  split
  · next heq => exact absurd (List.cons.inj heq).1 hne
  · exact congrArg (Option.map _) hread

theorem readItems_last {j : Json} {cs b : List Char} (hb : Blank b)
    (hread : readValue n (cs ++ (b ++ ']' :: rest)) = some (j, b ++ ']' :: rest)) :
    readItems (n + 1) (cs ++ (b ++ ']' :: rest)) = some ([j], rest) := by
  have hskip := skipBlanks_append hb (show isBlank ']' = false by decide) rest
  simp [readItems, hread, hskip]

/-- Any other item is followed by a comma and further items. -/
theorem readItems_more {j : Json} {js : List Json} {cs b more : List Char} (hb : Blank b)
    (hread : readValue n (cs ++ (b ++ ',' :: more)) = some (j, b ++ ',' :: more))
    (hmore : readItems n (skipBlanks more) = some (js, rest)) :
    readItems (n + 1) (cs ++ (b ++ ',' :: more)) = some (j :: js, rest) := by
  have hskip := skipBlanks_append hb (show isBlank ',' = false by decide) more
  simp [readItems, hread, hskip, hmore]

/-- The last member is followed by the closing brace. -/
theorem readMembers_last (name : String) {j : Json} {b₁ more b₃ : List Char} (hb₁ : Blank b₁)
    (hread : readValue n (skipBlanks more) = some (j, b₃ ++ '\x7d' :: rest)) (hb₃ : Blank b₃) :
    readMembers (n + 1) (quoted name ++ (b₁ ++ ':' :: more)) = some (some [(name, j)], rest) := by
  have hcolon := skipBlanks_append hb₁ (show isBlank ':' = false by decide) more
  have hskip := skipBlanks_append hb₃ (show isBlank '\x7d' = false by decide) rest
  simp [quoted_append, readMembers, readText_flatMap_escape, hcolon, hread, hskip, consMember]

/-- Any other member is followed by a comma and further members. -/
theorem readMembers_more (name : String) {j : Json} {ms : List (String × Json)}
    {b₁ more b₃ more' : List Char} (hb₁ : Blank b₁)
    (hread : readValue n (skipBlanks more) = some (j, b₃ ++ ',' :: more')) (hb₃ : Blank b₃)
    (hmore : readMembers n (skipBlanks more') = some (some ms, rest)) :
    readMembers (n + 1) (quoted name ++ (b₁ ++ ':' :: more)) =
      some (some ((name, j) :: ms), rest) := by
  have hcolon := skipBlanks_append hb₁ (show isBlank ':' = false by decide) more
  have hskip := skipBlanks_append hb₃ (show isBlank ',' = false by decide) more'
  simp [quoted_append, readMembers, readText_flatMap_escape, hcolon, hread, hskip, hmore,
    consMember]

end Steps

/-- Reading a form takes a step. -/
theorem Written.exists_steps {part : Part} {cs : List Char} (h : Written part cs) {steps : Nat}
    (hsteps : cs.length ≤ steps) : ∃ n, steps = n + 1 := by
  obtain ⟨c, rest, rfl, -⟩ := h.eq_cons
  exact ⟨steps - 1, by rw [List.length_cons] at hsteps; omega⟩

/-- **Forms are read as what they are forms of**, in no more steps than they have characters. -/
theorem Written.reads {part : Part} {cs : List Char} (h : Written part cs) :
    ∀ n, cs.length ≤ n + 1 → part.Reads (n + 1) cs := by
  -- a part of a form is shorter than the form, so one step less is enough for it
  induction h with
  | null =>
    intro n _ rest _
    exact readValue_word "null" Json.null (c := 'n') rfl fun _ => by rw [readValue]
  | bool b =>
    intro n _ rest _
    cases b with
    | true => exact readValue_word "true" (Json.bool true) (c := 't') rfl fun _ => by rw [readValue]
    | false =>
      exact readValue_word "false" (Json.bool false) (c := 'f') rfl fun _ => by rw [readValue]
  | natural k => exact fun n _ rest hrest => readValue_digits k hrest
  | text s => exact fun n _ rest _ => readValue_quoted s
  | emptyArray hb => exact fun n _ rest _ => readValue_emptyArray hb
  | @array b cs js hb h ih =>
    intro n hn rest _
    have hcs : cs.length ≤ n := by simp at hn; omega
    obtain ⟨n, rfl⟩ := h.exists_steps hcs
    exact readValue_array hb h (ih n hcs rest)
  | emptyObject hb => exact fun n _ rest _ => readValue_emptyObject hb
  | @object b cs ms hb h ih =>
    intro n hn rest _
    have hcs : cs.length ≤ n := by simp at hn; omega
    obtain ⟨n, rfl⟩ := h.exists_steps hcs
    exact readValue_object hb h (ih n hcs rest)
  | @lastItem j cs b h hb ih =>
    intro n hn rest
    have hcs : cs.length ≤ n := by simp at hn; omega
    obtain ⟨n, rfl⟩ := h.exists_steps hcs
    have hread := ih n hcs _ (hb.ends_append (ends_cons (c := ']') (by decide) rest))
    simpa using readItems_last hb hread
  | @item j js cs b₁ b₂ ds h hb₁ hb₂ hds ih ihrest =>
    intro n hn rest
    have hlength : cs.length ≤ n ∧ ds.length ≤ n := by simp at hn; omega
    obtain ⟨n, rfl⟩ := h.exists_steps hlength.1
    have hread := ih n hlength.1 _
      (hb₁.ends_append (ends_cons (c := ',') (by decide) (b₂ ++ (ds ++ rest))))
    have hmore := ihrest n hlength.2 rest
    rw [← hds.skipBlanks_append hb₂] at hmore
    simpa using readItems_more hb₁ hread hmore
  | @lastMember name j b₁ b₂ cs b₃ hb₁ hb₂ h hb₃ ih =>
    intro n hn rest
    have hcs : cs.length ≤ n := by simp at hn; omega
    obtain ⟨n, rfl⟩ := h.exists_steps hcs
    have hread := ih n hcs _ (hb₃.ends_append (ends_cons (c := '\x7d') (by decide) rest))
    rw [← h.skipBlanks_append hb₂] at hread
    simpa using readMembers_last name hb₁ hread hb₃
  | @member name j ms b₁ b₂ cs b₃ b₄ ds hb₁ hb₂ h hb₃ hb₄ hds ih ihrest =>
    intro n hn rest
    have hlength : cs.length ≤ n ∧ ds.length ≤ n := by simp at hn; omega
    obtain ⟨n, rfl⟩ := h.exists_steps hlength.1
    have hread := ih n hlength.1 _
      (hb₃.ends_append (ends_cons (c := ',') (by decide) (b₄ ++ (ds ++ rest))))
    rw [← h.skipBlanks_append hb₂] at hread
    have hmore := ihrest n hlength.2 rest
    rw [← hds.skipBlanks_append hb₄] at hmore
    simpa using readMembers_more name hb₁ hread hb₃ hmore

/-- **A form of a value is read as this value.** -/
theorem ofChars?_of_written {j : Json} {cs : List Char} (h : Written (.value j) cs) :
    ofChars? cs = some j := by
  have hskip : skipBlanks cs = cs := by
    simpa using h.skipBlanks_append Blank.nil []
  -- twice as many steps as characters is more than enough
  have hread := h.reads (2 * cs.length + 1) (by omega) [] (by simp [Ends])
  rw [List.append_nil] at hread
  rw [ofChars?, hskip, hread]
  rfl

/-! ### Both layouts write forms -/

/-- A value without kept literals and without texts that are none. -/
inductive Plain : Json → Prop
  | null : Plain null
  | bool (b : Bool) : Plain (bool b)
  | natural (n : Nat) : Plain (natural n)
  | text (s : String) : Plain (text s)
  | array {js : List Json} (h : ∀ j ∈ js, Plain j) : Plain (array js)
  | object {ms : List (String × Json)} (h : ∀ m ∈ ms, Plain m.2) : Plain (object ms)

/-- A layout of arrays writes forms if it writes forms of their items: the first behind some blanks,
each further one behind a comma and such blanks. -/
theorem Written.arrayOf (write : Json → List Char) (further : List Json → List Char)
    {gap last : List Char} (hgap : Blank gap) (hlast : Blank last)
    (hnil : further [] = last ++ [']'])
    (hcons : ∀ j js, further (j :: js) = ',' :: gap ++ write j ++ further js) {j : Json}
    {js : List Json} (h : ∀ i ∈ j :: js, Written (.value i) (write i)) :
    Written (.value (.array (j :: js))) ('[' :: gap ++ write j ++ further js) := by
  -- item by item, each with the comma and the blanks in front of the next one
  have hitems : Written (.items (j :: js)) (write j ++ further js) := by
    induction js generalizing j with
    | nil =>
      rw [hnil, ← List.append_assoc]
      exact .lastItem (h j List.mem_cons_self) hlast
    | cons i js ih =>
      obtain ⟨hj, hjs⟩ := List.forall_mem_cons.mp h
      have hform := Written.item hj Blank.nil hgap (ih hjs)
      rw [hcons]
      simpa using hform
  have hform := Written.array hgap hitems
  rwa [← List.append_assoc] at hform

/-- A layout of objects writes forms if it writes forms of their values. -/
theorem Written.objectOf (write : Json → List Char)
    (further : List (String × Json) → List Char) {gap colon last : List Char} (hgap : Blank gap)
    (hcolon : Blank colon) (hlast : Blank last) (hnil : further [] = last ++ ['\x7d'])
    (hcons : ∀ name j ms, further ((name, j) :: ms) =
      ',' :: gap ++ quoted name ++ ':' :: (colon ++ write j) ++ further ms)
    {name : String} {j : Json} {ms : List (String × Json)}
    (h : ∀ m ∈ (name, j) :: ms, Written (.value m.2) (write m.2)) :
    Written (.value (.object ((name, j) :: ms)))
      ('\x7b' :: gap ++ quoted name ++ ':' :: (colon ++ write j) ++ further ms) := by
  have hmembers : Written (.members ((name, j) :: ms))
      (quoted name ++ ':' :: (colon ++ write j) ++ further ms) := by
    -- member by member, from the first one on
    induction ms generalizing name j with
    | nil =>
      have hform := Written.lastMember name Blank.nil hcolon (h _ List.mem_cons_self) hlast
      rw [hnil]
      simpa using hform
    | cons m ms ih =>
      obtain ⟨hj, hms⟩ := List.forall_mem_cons.mp h
      have hform := Written.member name Blank.nil hcolon hj Blank.nil hgap (ih hms)
      rw [hcons]
      simpa using hform
  simpa using Written.object hgap hmembers

/-- **The layout without blanks writes forms.** -/
theorem written_compact {j : Json} (h : j.Plain) : Written (.value j) j.compact := by
  induction h with
  | null => exact .null
  | bool b => exact .bool b
  | natural n => exact .natural n
  | text s => exact .text s
  | @array js _ ih =>
    -- an empty array is written without a gap
    cases js with
    | nil => exact .emptyArray Blank.nil
    | cons j js =>
      exact .arrayOf compact compactItems Blank.nil Blank.nil rfl (fun _ _ => rfl) ih
  | @object ms _ ih =>
    cases ms with
    | nil => exact .emptyObject Blank.nil
    | cons m ms =>
      exact .objectOf compact compactMembers Blank.nil Blank.nil Blank.nil rfl (fun _ _ _ => rfl) ih

/-- A line break with its indentation is nothing but blanks. -/
theorem blank_lineAt (level : Nat) : Blank (lineAt level) := by
  intro c hc
  rcases List.mem_cons.mp hc with rfl | hc
  · rfl
  · rw [List.eq_of_mem_replicate hc]
    rfl

/-- The layout in lines writes forms at every level of indentation. -/
theorem written_prettyAt {j : Json} (h : j.Plain) (level : Nat) :
    Written (.value j) (j.prettyAt level) := by
  -- at every level, since the items of a value are written one level deeper
  induction h generalizing level with
  | null => exact .null
  | bool b => exact .bool b
  | natural n => exact .natural n
  | text s => exact .text s
  | @array js _ ih =>
    cases js with
    | nil => exact .emptyArray Blank.nil
    | cons j js =>
      exact .arrayOf (prettyAt (level + 1)) (prettyItems level) (blank_lineAt (level + 1))
        (blank_lineAt level) rfl (fun _ _ => rfl) fun i hi => ih i hi (level + 1)
  | @object ms _ ih =>
    have hcolon : Blank [' '] := by simp [Blank, isBlank]
    cases ms with
    | nil => exact .emptyObject Blank.nil
    | cons m ms =>
      exact .objectOf (prettyAt (level + 1)) (prettyMembers level) (blank_lineAt (level + 1)) hcolon
        (blank_lineAt level) rfl (fun _ _ _ => rfl) fun m hm => ih m hm (level + 1)

/-- **The layout in lines writes forms.** -/
theorem written_pretty {j : Json} (h : j.Plain) : Written (.value j) j.pretty :=
  written_prettyAt h 0

end MatchCheck.Json
