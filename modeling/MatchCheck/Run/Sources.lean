import MatchCheck.Run.Outcome

/-!
# The sources that paths name

A file that is named is a source whatever its extension. A directory stands for the files below it
with an extension of sources, in the order of their paths and without those in hidden directories. A
source that is named twice in a row counts once.
-/

namespace MatchCheck.Run

/-- The files below a directory, on paths that begin with the one of the directory. Files that such
a path does not reach, since it would be too long, are left out. -/
def filesBelow (files : Files) (directory : Path) : List Path :=
  match files.entry directory with
  | .ok (.folder entries) =>
    (entries.visibleFiles.map fun names => names.foldl Path.child directory).filter files.isFile
  | _ => []

/-- The sources that a path names. -/
def sourcesAt (files : Files) (config : Config) (p : Path) : Except Failure (List Path) :=
  if files.isFile p then .ok [p]
  else if files.isDirectory p then .ok ((filesBelow files p).filter config.isSource)
  else .error (.missing p)

/-- Keeps the first of neighbours that take the same steps. -/
def dropRepeats : List Path → List Path
  | [] => []
  | p :: ps =>
    match dropRepeats ps with
    | [] => [p]
    | q :: qs => if p.same q then p :: qs else p :: q :: qs

/-- The sources that paths name. -/
def sources (files : Files) (config : Config) (paths : List Path) : Except Failure (List Path) := do
  return dropRepeats (← paths.mapM (sourcesAt files config)).flatten

/-- The path that stands for all paths of a command when its project is looked for. -/
def startOf (paths : List Path) : Path :=
  paths.head?.getD .here

/-- The configuration that applies to the paths of a command. -/
def configFor (files : Files) (paths : List Path) : Except Failure Config :=
  match Config.discover files (startOf paths) with
  | .ok (config, _) => .ok config
  | .error cause => .error (.misconfigured cause)

/-- The text of a source. -/
def readSource (files : Files) (p : Path) : Except Failure String :=
  match files.read p with
  | .ok text => .ok text
  | .error cause => .error (.unreadable p cause)

end MatchCheck.Run
