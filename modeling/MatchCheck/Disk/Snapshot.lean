import MatchCheck.Cache.File
import MatchCheck.CommandLine.Basic
import MatchCheck.Config.Find
import MatchCheck.Files.Change

/-!
# Files on disk

Commands are functions on `Files`. Before a command runs, whatever it can ask for is taken from the
disk; afterwards the files that differ are written back.
-/

namespace MatchCheck.Disk

/-- The text of a file on disk, or nothing if its bytes are no text. -/
def readText (p : Path) : IO (Option String) := do
  return String.fromUTF8? (← IO.FS.readBinFile p.text)

/-- Whether a path on disk is a directory. -/
def isDirectory (p : Path) : IO Bool := do
  ((← IO.currentDir) / p.text).isDir

/-- The directory at a path on disk, with the texts of those files that are wanted. -/
partial def readDirectory (wanted : Path → Bool) (p : Path) : IO Directory := do
  let mut entries := Directory.empty
  for found in ← ((← IO.currentDir) / p.text).readDir do
    let below := p.child found.fileName
    if ← found.path.isDir then
      entries := entries.put found.fileName (.folder (← readDirectory wanted below))
    else
      let text? ← try if wanted below then readText below else pure none catch _ => pure none
      entries := entries.put found.fileName (.file text?)
  return entries

/-- Takes over what is at a path on disk. -/
def take (wanted : Path → Bool) (p : Path) (files : Files) : IO Files := do
  let place (entry : Entry) : Files :=
    match files.slot? p.trimSlashes with
    | .ok (some slot) => files.fill slot entry
    | _ => files
  if ← isDirectory p then
    let entries ← readDirectory wanted p
    match files.locate p with
    | .ok place => return { files with root := files.root.modify (fun _ => entries) place.names }
    | .error _ => return place (.folder entries)
  else
    try return place (.file (← readText p)) catch _ => return files

/-- Takes over a single file on disk, with the directories above it. -/
def takeFile (p : Path) (files : Files) : IO Files := do
  try
    let text? ← readText p
    let files := p.parent?.elim files fun above => (files.makeDirectories above).1
    return (files.writeFile p text?).toOption.getD files
  catch _ => return files

/-- Takes over the directories on the way to a path, with the configuration and the remembered
reports in each. -/
def takeProject (p : Path) (files : Files) : IO Files := do
  let mut files := files
  for above in p.ancestors.reverse do
    if ← isDirectory above then
      files := (files.makeDirectories above).1
      files ← takeFile (above.child Config.fileName) files
      files ← takeFile (Cache.path above) files
  return files

/-- Takes over which of the files in remembered reports are still there. -/
def takeCached (root : Path) (files : Files) : IO Files := do
  let mut files := files
  for (key, _) in (Cache.load files root).entries do
    let p := Path.ofString key
    unless files.has p do
      if ← isDirectory p then files := (files.makeDirectories p).1
      else files ← takeFile p files
  return files

/-- The paths that a command is about. -/
def pathsOf : Command → List Path
  | .check paths _ _ _ | .fix paths _ _ => paths
  | .tokens file | .validate file => [file]
  | .explain _ => []

/-- The current directory on disk, unless it was removed. -/
def currentPath? : IO (Option Path) := do
  try return some (.ofString (← IO.currentDir).toString) catch _ => return none

/-- The files that a command can ask for. In a directory that was removed there are none. -/
def snapshot (command : Command) : IO Files := do
  let some current ← currentPath? | return ⟨.empty, ⟨[], 1⟩⟩
  let mut files := Files.emptyAt (current.tail.filter (· ≠ ""))
  let paths := pathsOf command
  for p in paths do files ← takeProject (current.join p) files
  let start := paths.head?.getD .here
  let config := (Config.discover files start).toOption.elim Config.default (·.1)
  for p in paths do files ← take config.isSource p files
  for p in paths do files ← takeProject (current.join p) files
  takeCached (Config.projectRoot files start) files

/-- Writes the files that differ back to disk. -/
def writeBack (before after : Files) : IO Unit := do
  let old := before.root.files
  for (names, text?) in after.root.files do
    match text? with
    | some text =>
      unless (names, some text) ∈ old do
        IO.FS.createDirAll (Path.absolute names.dropLast).text
        IO.FS.writeFile (Path.absolute names).text text
    | none => pure ()

end MatchCheck.Disk
