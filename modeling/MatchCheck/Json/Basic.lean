/-!
# JSON values

The values of the JSON format. Numbers are natural numbers wherever this library writes one; a
number read from a text that is not written as plain digits keeps its literal, since nothing here
asks for its value. An object keeps its members in the order in which they are written, and a name
may occur in it more than once.

A string literal can hold the escape of one half of a surrogate pair. Such a literal is well formed
but stands for no text, and an object with a member of such a name is well formed but stands for no
object. Nothing can be read from either (`unpaired`).
-/

namespace MatchCheck

/-- A JSON value. -/
inductive Json where
  | null
  | bool (value : Bool)
  | natural (value : Nat)
  | number (literal : List Char)
  | text (value : String)
  | unpaired
  | array (items : List Json)
  | object (members : List (String × Json))
deriving Repr, Inhabited

namespace Json

/-- The value of the only member of the given name. A name that is missing or repeated has none. -/
def only? (name : String) (members : List (String × Json)) : Option Json :=
  match members.filter (·.1 = name) with
  | [(_, value)] => some value
  | _ => none

/-- The values of a record by the names of its fields. An object gives each field at most once,
under its name and in any order; members of other names are ignored. An array gives the fields in
order: at least `least` of them and no more than there are. -/
def record? (least : Nat) (names : List String) : Json → Option (List (Option Json))
  | object members =>
    if names.all fun name => (members.filter (·.1 = name)).length ≤ 1 then
      some (names.map fun name => only? name members)
    else none
  | array items =>
    if least ≤ items.length && items.length ≤ names.length then
      some (items.map some ++ List.replicate (names.length - items.length) none)
    else none
  | _ => none

/-- The text of a string. -/
def text? : Json → Option String
  | text value => some value
  | _ => none

/-- The value of a natural number below `2 ^ 64`. -/
def word? : Json → Option Nat
  | natural value => if value < Nat.pow 2 64 then some value else none
  | _ => none

/-- The items of an array, each read by `read`. -/
def items? {α : Type} (read : Json → Option α) : Json → Option (List α)
  | array items => items.mapM read
  | _ => none

end Json

end MatchCheck
