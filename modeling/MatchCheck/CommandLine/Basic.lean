import MatchCheck.Path.Basic

/-!
# What the command line asks for

A command line names one command with its arguments, and says how its output is to look like.
-/

namespace MatchCheck

/-- What is to be done. -/
inductive Command where
  /-- Report the findings of sources. -/
  | check (paths : List Path) (strict noCache watch : Bool)
  /-- Apply the suggestions of findings, of all codes or of those given. -/
  | fix (paths : List Path) (only? : Option String) (dryRun : Bool)
  /-- Show how an editor colours a file. -/
  | tokens (file : Path)
  /-- Show what an editor marks in a file. -/
  | validate (file : Path)
  /-- Explain a code. -/
  | explain (code : String)
deriving DecidableEq, Repr

/-- A command and how its output is to look like. -/
structure CommandLine where
  command : Command
  /-- Whether the output is for tools. -/
  json : Bool
  /-- How often more details were asked for. -/
  verbosity : Nat
  /-- Whether only errors are shown. -/
  quiet : Bool
deriving DecidableEq, Repr

/-- Why a command line does not lead to a command. -/
inductive UsageError where
  | unknownArgument
  | unknownCommand
  | missingCommand
  | missingArgument
  /-- A path is empty, or an option has no value. -/
  | invalidValue
  /-- A flag or an option is given twice. -/
  | repeated
  /-- A flag is given a value. -/
  | unneededValue
  /-- There are no arguments at all. -/
  | noArguments
  /-- Help is asked for. -/
  | help
  /-- The version is asked for. -/
  | version
deriving DecidableEq, Repr

namespace UsageError

/-- The exit code after the error. What was asked for is no failure. -/
def exitCode : UsageError → Nat
  | help | version => 0
  | _ => 2

end UsageError

end MatchCheck
