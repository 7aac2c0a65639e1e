import MatchCheck.Diagnostic.Basic
import MatchCheck.Program.Basic
import MatchCheck.Shape.Basic

/-!
# Resolving a match

The matched expression fixes a type: its constructor is looked up by name, among the constructors
that take as many arguments as are written if there are such, and must then be one alone. Each
pattern is resolved against the type expected at its level and becomes a shape. A pattern that does
not fit yields exactly one error, for the outermost level at which it does not fit.
-/

namespace MatchCheck

/-- Why an expression or a pattern does not fit its type. -/
inductive MatchError where
  /-- The matched expression names no constructor. -/
  | unknownScrutinee (name : Ident)
  /-- The matched expression names constructors of several types. -/
  | ambiguousScrutinee (name : Ident) (candidates : List (TypeDef × CtorDef))
  /-- A constructor of another type stands where one of the expected type is wanted. -/
  | wrongType (name : Ident) (found : TypeDef × CtorDef) (expected : TypeDef)
  /-- An argument of the matched expression names no constructor. -/
  | unknownArgument (name : Ident) (expected : TypeDef)
  /-- A pattern names no constructor. -/
  | unknownCtor (name : Ident) (expected : TypeDef)
  /-- A constructor is written with another number of arguments than it takes. -/
  | argumentCount (ctor : CtorDef) (span : Span) (given : Nat)
deriving DecidableEq, Repr

namespace MatchError

/-- A name in quotes. -/
def quote (name : String) : String :=
  "`" ++ name ++ "`"

/-- The finding that reports a misfit. -/
def diagnostic : MatchError → Diagnostic
  | unknownScrutinee name =>
    .error .unknownIdentifier ("Unknown identifier " ++ quote name.name) name.span
  | ambiguousScrutinee name candidates =>
    { Diagnostic.error .ambiguousConstructor
        ("Ambiguous constructor " ++ quote name.name ++ ": declared in "
          ++ " and ".intercalate (candidates.map fun (ty, _) => quote ty.name))
        name.span with
      notes := candidates.map fun (ty, c) => ⟨"declared in " ++ quote ty.name, some c.span⟩ }
  | wrongType name (owner, c) expected =>
    (Diagnostic.error .wrongConstructorType
      ("Mismatched types: " ++ quote name.name ++ " is a constructor of " ++ quote owner.name
        ++ ", expected " ++ quote expected.name) name.span).addNote
      (quote name.name ++ " declared here") (some c.span)
  | unknownArgument name expected =>
    (Diagnostic.error .unknownIdentifier ("Unknown identifier " ++ quote name.name)
      name.span).addNote
      (quote expected.name ++ " has no constructor named " ++ quote name.name) none
  | unknownCtor name expected =>
    (Diagnostic.error .unknownConstructor ("Unknown constructor " ++ quote name.name)
      name.span).addNote
      (quote expected.name ++ " has no constructor named " ++ quote name.name) none
  | argumentCount c span given =>
    (Diagnostic.error .wrongArgumentCount
      ("Wrong number of arguments for " ++ quote c.name ++ " (" ++ toString given ++ " → "
        ++ toString c.arity ++ ")") span).addNote
      (quote c.name ++ " takes " ++ toString c.arity
        ++ (if c.arity = 1 then " argument" else " arguments")) none

end MatchError

namespace Signature

/-- The error of a name that is no constructor of the expected type: it belongs to another type, or
else it is unknown. -/
def misplaced (sig : Signature) (expected : TypeDef) (name : Ident) (unknown : MatchError) :
    MatchError :=
  match (sig.ctorsNamed name.name).head? with
  | some found => .wrongType name found expected
  | none => unknown

/-- The shape of a pattern against the type expected for it. -/
def resolve (sig : Signature) (expected : TypeDef) : Pattern → Except MatchError Shape
  | .wildcard _ => .ok .any
  | .ctor span name args =>
    match expected.ctor? name.name with
    | none => .error (sig.misplaced expected name (.unknownCtor name expected))
    | some c =>
      match c.field, args with
      | none, [] => .ok (.bare (expected.ref c))
      | some field, [arg] =>
        match sig.type? field with
        | some fieldTy => (resolve sig fieldTy arg).map (.wrap (expected.ref c))
        | none => .ok (.wrap (expected.ref c) .any)
      | _, _ => .error (.argumentCount c span args.length)

/-- What is wrong with an expression that is headed by the given constructor. -/
def argumentError? (sig : Signature) (c : CtorDef) : Expr → Option MatchError
  | .apply span _ args =>
    match c.field, args with
    | none, [] => none
    | some field, [arg] =>
      match sig.type? field with
      | some fieldTy =>
        match fieldTy.ctor? arg.name.name with
        | some d => argumentError? sig d arg
        | none => some (sig.misplaced fieldTy arg.name (.unknownArgument arg.name fieldTy))
      | none => none
    | _, _ => some (.argumentCount c span args.length)

/-- The constructors that a matched expression may mean: those of its name that take as many
arguments as are written, or all of its name if there are none such. -/
def candidates (sig : Signature) (e : Expr) : List (TypeDef × CtorDef) :=
  let named := sig.ctorsNamed e.name.name
  let fitting := named.filter fun (_, c) => c.arity = e.args.length
  if fitting.isEmpty then named else fitting

/-- The type of a matched expression and the constructor that heads it. -/
def scrutinee (sig : Signature) (e : Expr) : Except MatchError (TypeDef × CtorDef) :=
  match sig.candidates e with
  | [] => .error (.unknownScrutinee e.name)
  | [found] => .ok found
  | several => .error (.ambiguousScrutinee e.name several)

end Signature

/-- A match whose type is known, with the arms that fit it. -/
structure ResolvedMatch where
  type : TypeDef
  arms : List (Arm × Shape)
deriving Repr

namespace ResolvedMatch

/-- The shapes of the arms. -/
def shapes (m : ResolvedMatch) : List Shape :=
  m.arms.map (·.2)

end ResolvedMatch

namespace Signature

/-- The arms that resolve against a type, with their shapes. -/
def resolvedArms (sig : Signature) (ty : TypeDef) (arms : List Arm) : List (Arm × Shape) :=
  arms.filterMap fun arm => ((sig.resolve ty arm.pattern).toOption).map (arm, ·)

/-- The errors of the arms that do not resolve against a type. -/
def armErrors (sig : Signature) (ty : TypeDef) (arms : List Arm) : List MatchError :=
  arms.filterMap fun arm =>
    match sig.resolve ty arm.pattern with
    | .ok _ => none
    | .error e => some e

/-- Resolves a match. Without a type for the matched expression the arms are not looked at. -/
def resolveMatch (sig : Signature) (m : MatchExpr) : Option ResolvedMatch × List MatchError :=
  match sig.scrutinee m.scrutinee with
  | .error e => (none, [e])
  | .ok (ty, c) =>
    (some ⟨ty, sig.resolvedArms ty m.arms⟩,
      (sig.argumentError? c m.scrutinee).toList ++ sig.armErrors ty m.arms)

end Signature

end MatchCheck
