import MatchCheck.Diagnostic.Basic
import MatchCheck.Program.Basic
import MatchCheck.Signature.Basic

/-!
# Declaring types

The signature of a program takes the first declaration of every type name, and of every constructor
name inside it the first constructor. What repeats a name is reported and left out. A field that
names an undeclared type is reported wherever it is written, also in a declaration that is left out.
-/

namespace MatchCheck

/-- What is wrong with a declaration. -/
inductive DeclError where
  /-- The name of a type is taken since the given place. -/
  | duplicateType (name : Ident) (first : Span)
  /-- The name of a constructor is taken inside its type since the given place. -/
  | duplicateCtor (name : Ident) (owner : String) (first : Span)
  /-- A field is of a type that is declared nowhere. -/
  | unknownType (name : Ident)
deriving DecidableEq, Repr

/-- The finding that reports a wrong declaration. -/
def DeclError.diagnostic : DeclError → Diagnostic
  | duplicateType name first =>
    (Diagnostic.error .duplicateType ("Type `" ++ name.name ++ "` is declared more than once")
      name.span).addNote "first declared here" (some first)
  | duplicateCtor name owner first =>
    (Diagnostic.error .duplicateConstructor
      ("Constructor `" ++ name.name ++ "` is declared more than once in `" ++ owner ++ "`")
      name.span).addNote "first declared here" (some first)
  | unknownType name => .error .unknownType ("Unknown type `" ++ name.name ++ "`") name.span

/-- The elements whose keys are neither among those kept so far nor repeated. -/
def firstsBy {α : Type} (key : α → String) (kept : List α) : List α → List α
  | [] => []
  | x :: xs =>
    if kept.any (key · = key x) then firstsBy key kept xs
    else x :: firstsBy key (kept ++ [x]) xs

/-- The constructors that repeat a name, each behind the constructor that holds it. -/
def CtorDecl.repeatsFrom (kept : List CtorDecl) : List CtorDecl → List (CtorDecl × CtorDecl)
  | [] => []
  | c :: cs =>
    match kept.find? (·.name.name = c.name.name) with
    | some first => (first, c) :: repeatsFrom kept cs
    | none => repeatsFrom (kept ++ [c]) cs

/-- The constructor that a declaration adds to its type. -/
def CtorDecl.define (c : CtorDecl) : CtorDef :=
  ⟨c.name.name, c.name.span, c.field.map (·.name)⟩

/-- The type that a declaration adds to the signature. -/
def EnumDecl.define (d : EnumDecl) : TypeDef :=
  ⟨d.name.name, d.name.span, (firstsBy (·.name.name) [] d.ctors).map CtorDecl.define⟩

/-- The errors of repeated names: one for a repeated type, else one for each repeated constructor.
-/
def EnumDecl.repeatErrorsFrom (kept : List EnumDecl) : List EnumDecl → List DeclError
  | [] => []
  | d :: ds =>
    match kept.find? (·.name.name = d.name.name) with
    | some first => .duplicateType d.name first.name.span :: repeatErrorsFrom kept ds
    | none =>
      (CtorDecl.repeatsFrom [] d.ctors).map
          (fun (first, c) => .duplicateCtor c.name d.name.name first.name.span)
        ++ repeatErrorsFrom (kept ++ [d]) ds

namespace Program

/-- The signature of a program. -/
def signature (p : Program) : Signature :=
  ⟨(firstsBy (·.name.name) [] p.enumDecls).map EnumDecl.define⟩

/-- All field types written in a program, also in declarations that are left out. -/
def writtenFields (p : Program) : List Ident :=
  p.enumDecls.flatMap fun d => d.ctors.filterMap (·.field)

/-- What is wrong with the declarations of a program. -/
def declErrors (p : Program) : List DeclError :=
  EnumDecl.repeatErrorsFrom [] p.enumDecls
    ++ (p.writtenFields.filter fun f => (p.signature.type? f.name).isNone).map .unknownType

/-- The findings about the declarations of a program, in the order of their places. -/
def declFindings (p : Program) : List Diagnostic :=
  Diagnostic.sortByStart (p.declErrors.map DeclError.diagnostic)

end Program

end MatchCheck
