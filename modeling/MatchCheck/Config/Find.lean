import MatchCheck.Config.Toml
import MatchCheck.Files.Basic

/-!
# Finding the configuration

The configuration that applies to a file or directory is the one in the nearest directory above it,
itself included. The directory that holds it is the root of the project; without a configuration,
the current directory is, which is named by a dot if it was removed.
-/

namespace MatchCheck

/-- Why there is no configuration to be used. -/
inductive ConfigError where
  | unreadable (path : Path) (cause : FileError)
  | mismatched (path : Path) (cause : Config.Mismatch)
  | flawed (path : Path) (cause : Config.Flaw)
deriving Repr

namespace ConfigError

/-- The message of the error. -/
def message : ConfigError → String
  | unreadable path cause => "failed to read " ++ path.text ++ ": " ++ cause.message
  | mismatched path cause => "failed to parse " ++ path.text ++ ": " ++ cause.message
  | flawed path cause => "invalid configuration in " ++ path.text ++ ": " ++ cause.message

end ConfigError

namespace Config

/-- The name of the file that holds a configuration. -/
def fileName : String := "pmxc.toml"

/-- The configuration that a text holds, which was found at a path. -/
def ofText (path : Path) (text : String) : Except ConfigError Config :=
  match ofChars text.toList with
  | .error cause => .error (.mismatched path cause)
  | .ok config =>
    match config.flaw? with
    | some cause => .error (.flawed path cause)
    | none => .ok config

/-- Reads a configuration from a file. -/
def load (files : Files) (path : Path) : Except ConfigError Config :=
  match files.read path with
  | .error cause => .error (.unreadable path cause)
  | .ok text => ofText path text

/-- The file with the configuration that applies to a path. A path that names nothing is taken as it
is spelled. -/
def find? (files : Files) (start : Path) : Option Path := do
  let start := (files.canonical? start).getD start
  let directory ← if files.isFile start then start.parent? else some start
  (directory.ancestors.map (·.child fileName)).find? files.isFile

/-- The configuration that applies to a path, and the file it comes from. -/
def discover (files : Files) (start : Path) : Except ConfigError (Config × Option Path) :=
  match find? files start with
  | some path => do return (← load files path, some path)
  | none => .ok (default, none)

/-- The root of the project that a path belongs to. -/
def projectRoot (files : Files) (start : Path) : Path :=
  ((find? files start).bind Path.parent?).getD (files.currentPath?.getD .here)

end Config

end MatchCheck
