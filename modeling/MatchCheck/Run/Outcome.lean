import MatchCheck.Config.Find

/-!
# The outcome of a command

A command prints on two channels, may change files and may fail. What it printed before it failed
stays printed.
-/

namespace MatchCheck

/-- Why a command failed. Problems in checked sources are findings; these are about what is around
them. -/
inductive Failure where
  /-- A path names neither a file nor a directory. -/
  | missing (path : Path)
  | unreadable (path : Path) (cause : FileError)
  | unwritable (path : Path) (cause : FileError)
  | misconfigured (cause : ConfigError)
  /-- A path cannot be watched. -/
  | unwatchable
  | unknownCode (code : String)
  /-- The check itself worked and found problems. -/
  | issuesFound (errors warnings : UInt64)
deriving Repr

namespace Failure

/-- The message of a failure. -/
def message : Failure → String
  | missing path => "failed to read " ++ path.text ++ ": no such file or directory"
  | unreadable path cause => "failed to read " ++ path.text ++ ": " ++ cause.message
  | unwritable path cause => "failed to write " ++ path.text ++ ": " ++ cause.message
  | misconfigured cause => cause.message
  | unwatchable => "file watcher failed: No path was found."
  | unknownCode code => "unknown diagnostic code `" ++ code ++ "`"
  | issuesFound errors warnings =>
    "found " ++ toString errors ++ " error(s) and " ++ toString warnings ++ " warning(s)"

/-- Whether a failure was shown already when the command ends. -/
def isShown : Failure → Bool
  | issuesFound _ _ => true
  | _ => false

end Failure

/-- What a command printed, on the output for results and on the one for reports. -/
structure Printed where
  out : String
  err : String
deriving DecidableEq, Repr

namespace Printed

/-- Nothing was printed. -/
def nothing : Printed :=
  ⟨"", ""⟩

/-- A line of results. -/
def outLine (line : String) : Printed :=
  ⟨line ++ "\n", ""⟩

/-- A line of reports. -/
def errLine (line : String) : Printed :=
  ⟨"", line ++ "\n"⟩

/-- One thing printed after the other. -/
def append (p q : Printed) : Printed :=
  ⟨p.out ++ q.out, p.err ++ q.err⟩

instance : Append Printed :=
  ⟨append⟩

/-- Many things printed one after the other. -/
def concat (ps : List Printed) : Printed :=
  ps.foldl append nothing

end Printed

/-- What a command did. -/
structure Outcome where
  printed : Printed
  /-- The files afterwards. -/
  files : Files
  failure? : Option Failure

namespace Outcome

/-- The exit code of the program. -/
def exitCode (outcome : Outcome) : Nat :=
  if outcome.failure?.isSome then 1 else 0

/-- What the program prints: the failure is named last, unless it was shown or nothing but errors in
sources is wanted. -/
def shown (outcome : Outcome) (quiet : Bool) : Printed :=
  match outcome.failure? with
  | some failure =>
    if failure.isShown || quiet then outcome.printed
    else outcome.printed ++ .errLine ("Error: " ++ failure.message)
  | none => outcome.printed

end Outcome

end MatchCheck
