/-!
# The three lengths of a text

A text is a list of characters, and its length is asked for in three units. Offsets count the
bytes of the UTF-8 encoding, columns count UTF-16 code units, and the length of the list itself
counts characters. The first two are sums over the characters, so both are additive along
concatenation: `byteLength_append` and `unitLength_append` are the only facts about them that
the places of tokens rest on.
-/

namespace MatchCheck.Text

/-- The number of UTF-16 code units of a character: two outside the basic multilingual plane. -/
def unitSize (c : Char) : Nat :=
  if c.val < 0x10000 then 1 else 2

/-- The number of bytes of the UTF-8 encoding of a text. -/
def byteLength : List Char → Nat
  | [] => 0
  | c :: cs => c.utf8Size + byteLength cs

/-- The number of UTF-16 code units of a text. -/
def unitLength : List Char → Nat
  | [] => 0
  | c :: cs => unitSize c + unitLength cs

@[simp] theorem byteLength_nil : byteLength [] = 0 := rfl

@[simp] theorem byteLength_cons (c : Char) (cs : List Char) :
    byteLength (c :: cs) = c.utf8Size + byteLength cs := rfl

@[simp] theorem unitLength_nil : unitLength [] = 0 := rfl

@[simp] theorem unitLength_cons (c : Char) (cs : List Char) :
    unitLength (c :: cs) = unitSize c + unitLength cs := rfl

theorem unitSize_pos (c : Char) : 0 < unitSize c := by
  unfold unitSize
  split <;> decide

@[simp] theorem byteLength_append (cs ds : List Char) :
    byteLength (cs ++ ds) = byteLength cs + byteLength ds := by
  induction cs with
  | nil => simp
  | cons c cs ih => simp [ih, Nat.add_assoc]

@[simp] theorem unitLength_append (cs ds : List Char) :
    unitLength (cs ++ ds) = unitLength cs + unitLength ds := by
  induction cs with
  | nil => simp
  | cons c cs ih => simp [ih, Nat.add_assoc]

end MatchCheck.Text
