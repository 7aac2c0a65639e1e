import MatchCheck.Check.Basic
import MatchCheck.Hash.Sip
import MatchCheck.Path.Basic

/-!
# Project configuration

A project can say how its sources are checked and which files are sources. Reports depend on the
checking options only, and the fingerprint of a configuration covers exactly these: two
configurations that differ in their file extensions share it.
-/

namespace MatchCheck

/-- The settings of a project. -/
structure Config where
  /-- How sources are checked. -/
  options : CheckOptions
  /-- The extensions of the files that count as sources in a directory. -/
  extensions : List String
deriving DecidableEq, Repr

namespace Config

/-- The settings of a project that says nothing. -/
def default : Config :=
  ⟨.default, ["pmxc", "pmxclang"]⟩

/-- Whether a path has one of the extensions of sources. -/
def isSource (config : Config) (p : Path) : Bool :=
  match p.extension? with
  | some extension => config.extensions.contains extension
  | none => false

end Config

namespace CheckOptions

/-- The choice about unreachable arms as a number. -/
def redundantArmsWord : RedundantArms → UInt64
  | .allow => 0
  | .warn => 1

/-- A hash of all that reports depend on besides the source. -/
def fingerprint (options : CheckOptions) : UInt64 :=
  Hash.ofWords [redundantArmsWord options.redundantArms, options.maxWitnesses.toUInt64]

end CheckOptions

end MatchCheck
