import MatchCheck.Disk.Snapshot
import MatchCheck.Run.Basic

/-!
# The program

Reads the command line, runs the command on the files it can ask for and prints what it printed.
-/

namespace MatchCheck

/-- What is shown to a user who asks for help. -/
def helpText : String :=
  "Pattern-match exhaustiveness checker for a small algebraic data type language\n\n"
    ++ "Usage: pmxc [OPTIONS] <COMMAND>\n\n"
    ++ "Commands:\n"
    ++ "  check     Check source files for errors\n"
    ++ "  fix       Apply diagnostic fix suggestions (missing arms, unreachable arms)\n"
    ++ "  tokens    Print the highlighting tokens of every line of a file\n"
    ++ "  validate  Print the editor markers of a file as JSON\n"
    ++ "  explain   Explain an error or warning code in detail\n"
    ++ "  help      Print this message or the help of the given subcommand(s)\n\n"
    ++ "Options:\n"
    ++ "      --json        Output diagnostics as JSON\n"
    ++ "  -v, --verbose...  Log more details to stderr (repeat for more)\n"
    ++ "  -q, --quiet       Suppress non-error output\n"
    ++ "  -h, --help        Print help\n"
    ++ "  -V, --version     Print version\n"

/-- What is said about a command line that leads to no command. -/
def UsageError.message : UsageError → String
  | unknownArgument => "error: unexpected argument found\n"
  | unknownCommand => "error: unrecognized subcommand\n"
  | missingCommand => "error: a subcommand is required but one was not provided\n"
  | missingArgument => "error: a required argument was not provided\n"
  | invalidValue => "error: a value is required but none was supplied\n"
  | repeated => "error: an argument cannot be used multiple times\n"
  | unneededValue => "error: unexpected value for an argument\n"
  | noArguments | help => helpText
  | version => "pmxc 0.1.0\n"

/-- Shows what was printed. -/
def Printed.show (p : Printed) : IO Unit := do
  IO.print p.out
  IO.eprint p.err

/-- What a watch looks at: all files outside the directory of remembered reports. -/
def watched (files : Files) : List (List String × Option String) :=
  files.root.files.filter fun (names, _) => !names.contains Cache.directoryName

/-- Checks again whenever a file has changed. -/
partial def watchOn (line : CommandLine) (paths : List Path) (strict noCache : Bool)
    (seen : List (List String × Option String)) : IO Unit := do
  IO.sleep 200
  let files ← Disk.snapshot line.command
  if watched files = seen then watchOn line paths strict noCache seen
  else
    IO.print "\x1b[2J\x1b[HFile changed, re-checking...\n\n"
    let outcome := Run.recheck files paths strict noCache line.style
    outcome.printed.show
    Disk.writeBack files outcome.files
    IO.print ("\n" ++ Run.watchBanner ++ "\n")
    watchOn line paths strict noCache (watched files)

/-- Runs a command line on the files of the disk. -/
def CommandLine.execute (line : CommandLine) : IO UInt32 := do
  let files ← Disk.snapshot line.command
  let outcome := line.run files
  (outcome.shown line.quiet).show
  Disk.writeBack files outcome.files
  match line.command, outcome.failure? with
  | .check paths strict noCache true, none => watchOn line paths strict noCache (watched files)
  | _, _ => pure ()
  return outcome.exitCode.toUInt32

end MatchCheck

open MatchCheck in
def main (args : List String) : IO UInt32 := do
  match CommandLine.ofArgs args with
  | .ok line => line.execute
  | .error e =>
    if e.exitCode = 0 then IO.print e.message else IO.eprint e.message
    return e.exitCode.toUInt32
