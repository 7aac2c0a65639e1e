import MatchCheck.Program.Grammar
import MatchCheck.Shape.Coverage
import MatchCheck.Shape.Resolve
import MatchCheck.Signature.Declare

/-!
# Checking a program

The findings of a source come in a fixed order: the errors of its syntax, the errors of its
declarations, and then for each match in turn the errors of its expression and patterns, the arms
that can never be reached if they are asked for, and at last the cases that it misses.
-/

namespace MatchCheck

/-- Whether arms that can never be reached are reported. -/
inductive RedundantArms where
  | allow
  | warn
deriving DecidableEq, Repr, Inhabited

/-- What a check reports beyond errors. -/
structure CheckOptions where
  /-- What to do with arms that can never be reached. -/
  redundantArms : RedundantArms
  /-- How many missing cases the message about a match lists. -/
  maxWitnesses : Nat
deriving DecidableEq, Repr

namespace CheckOptions

/-- Unreachable arms are not reported, and up to three missing cases are listed. -/
def default : CheckOptions :=
  ⟨.allow, 3⟩

end CheckOptions

/-- The finding about an arm that can never be reached. It suggests to remove the arm. -/
def unreachableArm (arm : Arm) (shape : Shape) : Diagnostic :=
  (Diagnostic.warning .unreachableArm
    ("Unreachable pattern `" ++ shape.render ++ "`: already covered by earlier arms")
    arm.pattern.span).addSuggestion "Remove this arm" ⟨arm.span, ""⟩

/-- The message about the cases that a match misses: as many as asked for are listed, the others are
counted. -/
def missingMessage (missing : List Shape) (maxWitnesses : Nat) : String :=
  let shown := (missing.take maxWitnesses).map fun s => "`" ++ s.render ++ "`"
  let hidden := missing.length - shown.length
  if shown.isEmpty then
    "Non-exhaustive match: " ++ toString missing.length ++ " pattern(s) not covered"
  else if 0 < hidden then
    "Non-exhaustive match: missing pattern(s) " ++ ", ".intercalate shown ++ " and "
      ++ toString hidden ++ " more"
  else
    "Non-exhaustive match: missing pattern(s) " ++ ", ".intercalate shown

/-- An arm with an empty body for a shape, on a line of its own. -/
def newArm (shape : Shape) : String :=
  "    " ++ shape.render ++ " => \x7b\x7d\n"

/-- The finding about the cases that a match misses. It suggests to add an arm for each in front of
the closing brace. -/
def nonExhaustive (m : MatchExpr) (ty : TypeDef) (missing : List Shape) (maxWitnesses : Nat) :
    Diagnostic :=
  let message := missingMessage missing maxWitnesses
  ((Diagnostic.error .nonExhaustiveMatch message m.keywordSpan).addNote
    ("the matched value has type `" ++ ty.name ++ "`") (some m.scrutinee.span)).addSuggestion
    "Add missing case(s)" ⟨m.closeSpan.shrinkToStart, String.join (missing.map newArm)⟩

/-- The findings about arms that can never be reached. -/
def unreachableArms (sig : Signature) (m : ResolvedMatch) : List Diagnostic :=
  (Shape.unreachableFrom sig m.type [] m.arms).map fun (arm, shape) => unreachableArm arm shape

/-- The finding about the cases that a match misses, if it misses any. -/
def missingCases (sig : Signature) (options : CheckOptions) (m : MatchExpr) (r : ResolvedMatch) :
    Option Diagnostic :=
  match Shape.missing sig r.type r.shapes with
  | [] => none
  | missing => some (nonExhaustive m r.type missing options.maxWitnesses)

/-- The findings about one match. -/
def MatchExpr.check (sig : Signature) (options : CheckOptions) (m : MatchExpr) : List Diagnostic :=
  let (resolved, errors) := sig.resolveMatch m
  let findings := errors.map MatchError.diagnostic
  match resolved with
  | none => findings
  | some r =>
    let findings := match options.redundantArms with
      | .allow => findings
      | .warn => Diagnostic.sortByStart (findings ++ unreachableArms sig r)
    findings ++ (missingCases sig options m r).toList

/-- The findings about a program that was read. -/
def Program.check (p : Program) (options : CheckOptions) : List Diagnostic :=
  p.declFindings ++ p.matchExprs.flatMap (·.check p.signature options)

/-- The findings about a source: its syntax first, and then whatever of it could be read. -/
def Source.check (source : Source) (options : CheckOptions) : List Diagnostic :=
  let (program, errors) := source.program
  errors.map SyntaxError.diagnostic ++ program.check options

end MatchCheck
