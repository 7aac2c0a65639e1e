import MatchCheck.Text.Split

/-!
# Paths

A path is a text cut at its slashes. It keeps its spelling, since messages show a path the way it
was given: `a//b` and `a/./b` are different spellings. They name the same file, and what a path
names step by step is given by its components, in which empty parts and dots do not count. Only the
dot that a path begins with is a component, so that `./a` and `a` are told apart.
-/

namespace MatchCheck

/-- A path, cut at its slashes. A path that starts at the root has nothing in front of its first
slash. -/
structure Path where
  /-- What stands in front of the first slash. -/
  head : String
  /-- What stands behind each of the slashes. -/
  tail : List String
deriving DecidableEq, Repr, Inhabited

namespace Path

/-- A step that a path takes. -/
inductive Component where
  | root
  | here
  | up
  | name (name : String)
deriving DecidableEq, Repr

/-- The parts of a path between slashes. -/
def parts (p : Path) : List String :=
  p.head :: p.tail

/-- The path of the given parts. -/
def ofParts : List String → Path
  | [] => ⟨"", []⟩
  | part :: parts => ⟨part, parts⟩

/-- The path that a text spells. -/
def ofString (text : String) : Path :=
  ofParts ((Text.splitOn '/' text.toList).map String.ofList)

/-- The spelling of a path. -/
def text (p : Path) : String :=
  String.ofList (Text.joinWith '/' (p.parts.map String.toList))

theorem parts_ofParts {parts : List String} (h : parts ≠ []) : (ofParts parts).parts = parts := by
  cases parts with
  | nil => exact absurd rfl h
  | cons part parts => rfl

/-- A path keeps its spelling. -/
@[simp] theorem text_ofString (s : String) : (ofString s).text = s := by
  have h : (Text.splitOn '/' s.toList).map String.ofList ≠ [] := by
    simpa using Text.splitOn_ne_nil '/' s.toList
  rw [text, ofString, parts_ofParts h, List.map_map]
  have hid : (String.toList ∘ String.ofList) = id := by
    funext cs
    simp
  rw [hid, List.map_id, Text.joinWith_splitOn, String.ofList_toList]

/-- Whether a path starts at the root. -/
def isAbsolute (p : Path) : Bool :=
  p.head = "" && !p.tail.isEmpty

/-- Whether a part leads nowhere. -/
def isFiller (part : String) : Bool :=
  part = "" || part = "."

/-- The step that a part stands for, unless it leads nowhere. -/
def step? (part : String) : Option Component :=
  if isFiller part then none else if part = ".." then some .up else some (.name part)

/-- The steps that a path takes. -/
def components (p : Path) : List Component :=
  let first := if p.isAbsolute then [.root] else if p.head = "." then [.here] else
    (step? p.head).toList
  first ++ p.tail.filterMap step?

/-- Whether two paths take the same steps. -/
def same (p q : Path) : Bool :=
  p.components = q.components

/-- Parts without those at the end that lead nowhere. -/
def trimFillers (parts : List String) : List String :=
  (parts.reverse.dropWhile isFiller).reverse

/-- The path without slashes at its end. -/
def trimSlashes (p : Path) : Path :=
  ⟨p.head, (p.tail.reverse.dropWhile (· = "")).reverse⟩

/-- The path without its last component. -/
def parent? (p : Path) : Option Path :=
  match trimFillers p.tail with
  | [] => if p.head = "" then none else some ⟨"", []⟩
  | tail =>
    match trimFillers tail.dropLast with
    | [] => some (if p.isAbsolute then ⟨"", [""]⟩ else ⟨p.head, []⟩)
    | tail => some ⟨p.head, tail⟩

/-- A path and the parents above it, as many as asked for. -/
def ancestorsUpTo : Nat → Path → List Path
  | 0, p => [p]
  | count + 1, p =>
    match p.parent? with
    | none => [p]
    | some q => p :: ancestorsUpTo count q

/-- A path and all parents above it. A parent has a component less, so there are no more of them
than parts. -/
def ancestors (p : Path) : List Path :=
  ancestorsUpTo p.parts.length p

/-- A path followed by another one. A slash is put between them unless the first one ends in a slash
or is empty, and a path that starts at the root stands alone. -/
def join (p q : Path) : Path :=
  if q.isAbsolute then q
  else if p.parts.getLast? = some "" then ofParts (p.parts.dropLast ++ q.parts)
  else ofParts (p.parts ++ q.parts)

/-- A name below a path. -/
def child (p : Path) (name : String) : Path :=
  p.join ⟨name, []⟩

/-- The path that leads nowhere else. -/
def here : Path :=
  ⟨".", []⟩

/-- A path from the root down along names. -/
def absolute (names : List String) : Path :=
  if names.isEmpty then ⟨"", [""]⟩ else ⟨"", names⟩

/-- The name that a path ends in. -/
def name? (p : Path) : Option String :=
  match p.components.getLast? with
  | some (.name name) => some name
  | _ => none

/-- What follows the last dot of a name, unless that dot begins the name. -/
def extensionOf (name : List Char) : Option (List Char) :=
  let ending := (name.reverse.takeWhile (· ≠ '.')).reverse
  if ending.length + 1 < name.length then some ending else none

/-- The extension of the name that a path ends in. -/
def extension? (p : Path) : Option String :=
  p.name?.bind fun name => (extensionOf name.toList).map String.ofList

end Path

end MatchCheck
