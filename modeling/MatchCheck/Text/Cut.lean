import MatchCheck.Text.Length

/-!
# Cutting a text at a byte offset

A text can be cut at the offsets between its characters, and at no others.
-/

namespace MatchCheck.Text

/-- The parts of a text in front of a byte offset and behind it, unless the offset lies inside a
character or past the end. -/
def cut? (offset : Nat) : List Char → Option (List Char × List Char)
  | [] => if offset = 0 then some ([], []) else none
  | c :: cs =>
    if offset = 0 then some ([], c :: cs)
    else if offset < c.utf8Size then none
    else (cut? (offset - c.utf8Size) cs).map fun (front, rest) => (c :: front, rest)

/-- What the two parts are: they give the text again, and the front part is as long as the offset
says. -/
theorem cut?_spec {offset : Nat} {cs front rest : List Char}
    (h : cut? offset cs = some (front, rest)) :
    front ++ rest = cs ∧ byteLength front = offset := by
  induction cs generalizing offset front with
  | nil =>
    rw [cut?] at h
    split at h <;> simp_all
  | cons c cs ih =>
    rw [cut?] at h
    split at h
    · simp_all
    · split at h
      · simp at h
      · obtain ⟨⟨front', rest'⟩, hcut, heq⟩ := Option.map_eq_some_iff.1 h
        obtain ⟨rfl, rfl⟩ := Prod.mk.inj heq
        obtain ⟨happend, hlength⟩ := ih hcut
        refine ⟨congrArg (c :: ·) happend, ?_⟩
        simp only [byteLength]
        omega

/-- The parts give the text again. -/
theorem append_of_cut? {offset : Nat} {cs front rest : List Char}
    (h : cut? offset cs = some (front, rest)) : front ++ rest = cs :=
  (cut?_spec h).1

/-- The front part is as long as the offset says. -/
theorem byteLength_of_cut? {offset : Nat} {cs front rest : List Char}
    (h : cut? offset cs = some (front, rest)) : byteLength front = offset :=
  (cut?_spec h).2

end MatchCheck.Text
