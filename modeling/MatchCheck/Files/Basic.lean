import MatchCheck.Files.Directory
import MatchCheck.Files.Place
import MatchCheck.Path.Basic

/-!
# Files

All files, as a tree of directories from the root, together with the current directory, at which
paths that do not start at the root begin. There are no links: following a path is a walk down and
up the tree, and every directory it passes has to exist. Names and paths have a greatest length,
which counts in bytes.
-/

namespace MatchCheck

/-- Why a file could not be read or written. -/
inductive FileError where
  | notFound
  | alreadyThere
  | notDirectory
  | isDirectory
  | nameTooLong
  /-- A path holds the character of code zero, which no name can hold. -/
  | zeroInName
  | notText
deriving DecidableEq, Repr

namespace FileError

/-- The error as it is shown. -/
def message : FileError → String
  | notFound => "No such file or directory (os error 2)"
  | alreadyThere => "File exists (os error 17)"
  | notDirectory => "Not a directory (os error 20)"
  | isDirectory => "Is a directory (os error 21)"
  | nameTooLong => "File name too long (os error 36)"
  | zeroInName => "file name contained an unexpected NUL byte"
  | notText => "stream did not contain valid UTF-8"

end FileError

/-- A tree of files and the current directory. -/
structure Files where
  root : Directory
  current : Place
deriving Repr, Inhabited

namespace Files

/-- Nothing but an empty current directory at the end of the given names. -/
def emptyAt (names : List String) : Files :=
  ⟨names.foldr (fun name below => .folder name below .empty) .empty, .ofNames names⟩

/-- The greatest length of a name. -/
def nameLimit : Nat := 255

/-- The least length that is too great for a path. -/
def pathLimit : Nat := 4096

/-- What is at a place. A removed directory is empty. -/
def entryAt? (files : Files) (place : Place) : Option Entry :=
  if place.isRemoved then some (.folder .empty) else files.root.find? place.names

/-- The entry of a name in the directory at a place. In a removed directory no name is looked at. -/
def lookup (place : Place) (entries : Directory) (name : String) :
    Except FileError (Option Entry) :=
  if place.isRemoved then .error .notFound
  else if nameLimit < name.utf8ByteSize then .error .nameTooLong
  else .ok (entries.get? name)

/-- Follows the parts of a path from a place, which must be a directory for a step to be taken. -/
def walk (files : Files) (place : Place) : List String → Except FileError Place
  | [] => .ok place
  | part :: parts =>
    match files.entryAt? place with
    | none => .error .notFound
    | some (.file _) => .error .notDirectory
    | some (.folder entries) =>
      if Path.isFiller part then files.walk place parts
      else if part = ".." then files.walk place.up parts
      else
        match lookup place entries part with
        | .error e => .error e
        | .ok none => .error .notFound
        | .ok (some _) => files.walk (place.down part) parts

/-- The place that parts of a path begin at, and the parts to follow from there. -/
def start (files : Files) (p : Path) : Place × List String :=
  if p.isAbsolute then (.ofNames [], p.tail) else (files.current, p.parts)

/-- Refuses paths that cannot name anything for the way they are spelled. -/
def checkSpelling (p : Path) : Except FileError Unit :=
  if '\x00' ∈ p.text.toList then .error .zeroInName
  else if p.text = "" then .error .notFound
  else if pathLimit ≤ p.text.utf8ByteSize then .error .nameTooLong
  else .ok ()

/-- The place that a path names. -/
def locate (files : Files) (p : Path) : Except FileError Place := do
  checkSpelling p
  let (place, parts) := files.start p
  files.walk place parts

/-- What a path names. -/
def entry (files : Files) (p : Path) : Except FileError Entry := do
  match files.entryAt? (← files.locate p) with
  | some entry => .ok entry
  | none => .error .notFound

/-- The place of the directory that a path names, and the entries in it. -/
def directory (files : Files) (p : Path) : Except FileError (Place × Directory) := do
  let place ← files.locate p
  match files.entryAt? place with
  | some (.folder entries) => .ok (place, entries)
  | some (.file _) => .error .notDirectory
  | none => .error .notFound

/-- Whether a path names anything. -/
def has (files : Files) (p : Path) : Bool :=
  (files.entry p).isOk

/-- Whether a path names a file. -/
def isFile (files : Files) (p : Path) : Bool :=
  match files.entry p with
  | .ok (.file _) => true
  | _ => false

/-- Whether a path names a directory. -/
def isDirectory (files : Files) (p : Path) : Bool :=
  match files.entry p with
  | .ok (.folder _) => true
  | _ => false

/-- The current directory as a path from the root, unless it was removed. -/
def currentPath? (files : Files) : Option Path :=
  if files.current.isRemoved then none else some (.absolute files.current.names)

/-- The path from the root to what a path names. Only that path has to be short enough, however long
the given one is. From a removed directory there is none, unless the given path starts at the
root. -/
def canonical? (files : Files) (p : Path) : Option Path :=
  if p.text = "" || (!p.isAbsolute && files.current.isRemoved) then none
  else
    let (place, parts) := files.start p
    match files.walk place parts with
    | .error _ => none
    | .ok place =>
      let p := Path.absolute place.names
      if p.text.utf8ByteSize < pathLimit then some p else none

/-- The text of a file. -/
def read (files : Files) (p : Path) : Except FileError String := do
  match ← files.entry p with
  | .file (some text) => .ok text
  | .file none => .error .notText
  | .folder _ => .error .isDirectory

end Files

end MatchCheck
