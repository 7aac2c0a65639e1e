import MatchCheck.CommandLine.Reader
import MatchCheck.Run.Fix
import MatchCheck.Run.Show

/-!
# Running a command line

A command is a function from the files there are to its outcome.
-/

namespace MatchCheck.CommandLine

/-- How the output is to look like. -/
def style (line : CommandLine) : Run.Style :=
  ⟨line.json, line.quiet⟩

/-- Runs a command. Of a watch, this is its begin. -/
def run (line : CommandLine) (files : Files) : Outcome :=
  match line.command with
  | .check paths strict noCache false => Run.check files paths strict noCache line.style
  | .check paths strict noCache true => Run.watch files paths strict noCache line.style
  | .fix paths only? dryRun => Run.fix files paths only? dryRun line.style
  | .tokens file => Run.tokens files file line.style
  | .validate file => Run.validate files file
  | .explain code => Run.explain files code

end MatchCheck.CommandLine
