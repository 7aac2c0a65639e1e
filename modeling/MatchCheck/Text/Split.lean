/-!
# Cutting a text at a character

`splitOn` cuts a text at every occurrence of a separator. There is always one part more than there
are separators, and putting the separator back between the parts gives the text again.
-/

namespace MatchCheck.Text

/-- Puts a character in front of the first part. -/
def consFirst (c : Char) : List (List Char) → List (List Char)
  | [] => [[c]]
  | part :: parts => (c :: part) :: parts

/-- The parts of a text between separators. -/
def splitOn (separator : Char) : List Char → List (List Char)
  | [] => [[]]
  | c :: cs =>
    if c = separator then [] :: splitOn separator cs else consFirst c (splitOn separator cs)

/-- Parts with a separator between them. -/
def joinWith (separator : Char) : List (List Char) → List Char
  | [] => []
  | [part] => part
  | part :: parts => part ++ separator :: joinWith separator parts

theorem splitOn_ne_nil (separator : Char) (cs : List Char) : splitOn separator cs ≠ [] := by
  cases cs with
  | nil => simp [splitOn]
  | cons c cs =>
    rw [splitOn]
    split
    · simp
    · cases splitOn separator cs <;> simp [consFirst]

theorem joinWith_consFirst (separator c : Char) {parts : List (List Char)} (h : parts ≠ []) :
    joinWith separator (consFirst c parts) = c :: joinWith separator parts := by
  match parts, h with
  | [part], _ => rfl
  | part :: next :: parts, _ => simp [consFirst, joinWith]

/-- Nothing but the separators is lost. -/
theorem joinWith_splitOn (separator : Char) (cs : List Char) :
    joinWith separator (splitOn separator cs) = cs := by
  induction cs with
  | nil => rfl
  | cons c cs ih =>
    rw [splitOn]
    split
    · next h =>
      match hs : splitOn separator cs with
      | [] => exact absurd hs (splitOn_ne_nil separator cs)
      | part :: parts => rw [hs] at ih; simp [joinWith, ih, h]
    · rw [joinWith_consFirst separator c (splitOn_ne_nil separator cs), ih]

end MatchCheck.Text
