import MatchCheck.Files.Basic

/-!
# Changes to files

Writing files, making and removing directories, and going to another current directory. A change
either gives the files after it or the error that stopped it; where a change consists of several
steps, those before the one that failed have been done.
-/

namespace MatchCheck.Files

/-- Cuts a path into the directory and the name that it ends in. A path that ends otherwise has
none. -/
def splitName? (p : Path) : Option (Path × String) :=
  match p.parts.getLast? with
  | none => none
  | some name =>
    if Path.isFiller name || name = ".." then none
    else
      let above := p.parts.dropLast
      some (if above.isEmpty then .here else .ofParts (above ++ [""]), name)

/-- A name in a directory, and the entry it has there. -/
structure Slot where
  directory : Place
  name : String
  entry? : Option Entry

/-- The slot of the name that a path ends in. A path that ends in no name has none. -/
def slot? (files : Files) (p : Path) : Except FileError (Option Slot) :=
  match splitName? p with
  | none => .ok none
  | some (above, name) => do
    let (place, entries) ← files.directory above
    return some ⟨place, name, ← lookup place entries name⟩

/-- Puts an entry into a slot. -/
def fill (files : Files) (slot : Slot) (entry : Entry) : Files :=
  { files with root := files.root.modify (·.put slot.name entry) slot.directory.names }

/-- Writes a file, whether it was there before or not. A text is kept as text, and bytes that are
none as such. -/
def writeFile (files : Files) (p : Path) (text? : Option String) : Except FileError Files := do
  checkSpelling p
  match ← files.slot? p with
  | none => .error .isDirectory
  | some slot =>
    match slot.entry? with
    | some (.folder _) => .error .isDirectory
    | _ => .ok (files.fill slot (.file text?))

/-- Writes a text to a file. -/
def write (files : Files) (p : Path) (text : String) : Except FileError Files :=
  files.writeFile p (some text)

/-- Makes a directory in one that exists. -/
def makeDirectory (files : Files) (p : Path) : Except FileError Files := do
  checkSpelling p
  match ← files.slot? p.trimSlashes with
  | none =>
    let _ ← files.locate p
    .error .alreadyThere
  | some slot =>
    if slot.entry?.isSome then .error .alreadyThere
    else .ok (files.fill slot (.folder .empty))

/-- Makes a directory unless it is there already. -/
def ensureDirectory (files : Files) (p : Path) : Except FileError Files :=
  match files.makeDirectory p with
  | .ok files => .ok files
  | .error e => if files.isDirectory p then .ok files else .error e

/-- Makes a directory and those above it that are missing, given the path and its parents. What was
made stays when one of them cannot be made. -/
def makeDirectoriesAlong (files : Files) : List Path → Files × Option FileError
  | [] => (files, some .notFound)
  | p :: above =>
    if p.text = "" then (files, none)
    else
      match files.ensureDirectory p with
      | .ok files => (files, none)
      | .error .notFound =>
        match files.makeDirectoriesAlong above with
        | (files, some e) => (files, some e)
        | (files, none) =>
          match files.ensureDirectory p with
          | .ok files => (files, none)
          | .error e => (files, some e)
      | .error e => (files, some e)

/-- Makes a directory and those above it that are missing. -/
def makeDirectories (files : Files) (p : Path) : Files × Option FileError :=
  files.makeDirectoriesAlong p.ancestors

/-- Removes everything in the directory at a place. -/
def clear (files : Files) (place : Place) : Files :=
  if place.isRemoved then files
  else
    ⟨files.root.modify (fun _ => .empty) place.names,
      files.current.cut place.names place.names.length⟩

/-- Removes the entry of a name in the directory at a place. -/
def eraseAt (files : Files) (place : Place) (name : String) : Files :=
  ⟨files.root.modify (·.erase name) place.names,
    files.current.cut (place.names ++ [name]) place.names.length⟩

/-- Removes a file, or a directory with all that is in it, and says whether that worked. A directory
is emptied first and then removed by the name that its path ends in. If there is none, it stays, and
if the path has lost its way with what was removed, there is nothing left to be done. -/
def remove (files : Files) (p : Path) : Files × Bool :=
  let eraseName (files : Files) : Files × Bool :=
    match files.slot? p.trimSlashes with
    | .ok (some slot) => (files.eraseAt slot.directory slot.name, true)
    | .ok none => (files, !files.has p)
    | .error e => (files, e = .notFound)
  match files.locate p with
  | .error _ => (files, false)
  | .ok place =>
    match files.entryAt? place with
    | some (.folder _) => eraseName (files.clear place)
    | some (.file _) => eraseName files
    | none => (files, false)

/-- Makes a directory the current one. -/
def enter (files : Files) (p : Path) : Except FileError Files := do
  let (place, _) ← files.directory p
  return { files with current := place }

end MatchCheck.Files
