/-!
# Places in a tree of directories

A place is where a walk along a path has arrived: the names that lead down to it from the root. A
current directory stays a place when it is removed. It is then an empty directory that no name leads
to, but the way up from it is still known: through the removed directories above it to the one that
is still in the tree. Since a removed directory is empty and stays so, only the number of steps on
that way matters.
-/

namespace MatchCheck

/-- A place in a tree of directories. -/
structure Place where
  /-- The names from the root down to the place or, if it was removed, down to the last directory
  above it that is still in the tree. -/
  names : List String
  /-- How many removed directories lie below those names, the place itself included. -/
  removed : Nat
deriving DecidableEq, Repr, Inhabited

namespace Place

/-- The place that names lead down to. -/
def ofNames (names : List String) : Place :=
  ⟨names, 0⟩

/-- Whether the place is no longer in the tree. -/
def isRemoved (p : Place) : Bool :=
  0 < p.removed

/-- The place above. Above the root is the root. -/
def up (p : Place) : Place :=
  if p.isRemoved then ⟨p.names, p.removed - 1⟩ else ⟨p.names.dropLast, 0⟩

/-- The place of a name in the directory at a place in the tree. -/
def down (p : Place) (name : String) : Place :=
  ⟨p.names ++ [name], p.removed⟩

/-- What becomes of a place below `names` when everything deeper than `kept` names is removed. A
place elsewhere stays as it is. -/
def cut (p : Place) (names : List String) (kept : Nat) : Place :=
  if names.isPrefixOf p.names then ⟨p.names.take kept, p.removed + (p.names.length - kept)⟩ else p

end Place

end MatchCheck
