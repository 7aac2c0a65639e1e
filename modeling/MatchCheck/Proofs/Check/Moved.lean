import MatchCheck.Check.Basic
import MatchCheck.Proofs.Coverage.Missing
import MatchCheck.Proofs.Fix.Suggested
import MatchCheck.Proofs.Program.Spans
import MatchCheck.Proofs.Value.Resolution

/-!
# Checking a moved program

No part of the analysis looks at the places of names. Declaring, resolving and finding missing cases
commute with moving names, and an error moves along (`DeclError.move`, `MatchError.move`). Where the
larger pieces of a program are put does not matter either, and an error about such a piece goes with
it (`MatchError.relocate`). What a finding says, its code and its message (`Diagnostic.report`),
holds no place at all.

The one use of places is the order of findings. The findings about declarations are sorted, so their
reports stay the same only if the names keep their order (`Program.report_declFindings_move`).
Without warnings the findings about a match are never sorted, and their reports stay the same
wherever the names are put (`MatchExpr.report_check_move`).
-/

namespace MatchCheck

variable (g : Span → Span)

/-! ### Signatures -/

/-- A constructor of a signature, declared at another place. -/
def CtorDef.move (c : CtorDef) : CtorDef :=
  ⟨c.name, g c.span, c.field⟩

/-- A type of a signature, declared at another place. -/
def TypeDef.move (ty : TypeDef) : TypeDef :=
  ⟨ty.name, g ty.span, ty.ctors.map (CtorDef.move g)⟩

/-- A signature of types that are declared at other places. -/
def Signature.move (sig : Signature) : Signature :=
  ⟨sig.types.map (TypeDef.move g)⟩

/-- A constructor and its type, declared at other places. -/
def CtorDef.moveWith (found : TypeDef × CtorDef) : TypeDef × CtorDef :=
  (found.1.move g, found.2.move g)

@[simp] theorem CtorDef.name_move (c : CtorDef) : (c.move g).name = c.name := rfl

@[simp] theorem CtorDef.field_move (c : CtorDef) : (c.move g).field = c.field := rfl

@[simp] theorem TypeDef.name_move (ty : TypeDef) : (ty.move g).name = ty.name := rfl

@[simp] theorem TypeDef.ref_move (ty : TypeDef) (c : CtorDef) :
    (ty.move g).ref (c.move g) = ty.ref c := rfl

/-- Looking a constructor up by its name finds the moved constructor. -/
@[simp] theorem TypeDef.ctor?_move (ty : TypeDef) (name : String) :
    (ty.move g).ctor? name = (ty.ctor? name).map (CtorDef.move g) := by
  simp only [ctor?, move, List.find?_map]
  rfl

theorem TypeDef.move_id : move id = id := by
  funext ty
  simp only [move, id_eq, show CtorDef.move id = id from rfl, List.map_id]

namespace Signature

variable (sig : Signature)

theorem move_id : sig.move id = sig := by
  rw [move, TypeDef.move_id, List.map_id]

@[simp] theorem type?_move (name : String) :
    (sig.move g).type? name = (sig.type? name).map (TypeDef.move g) := by
  simp only [type?, move, List.find?_map]
  rfl

/-- The type of a field is looked up by name, and moves along. -/
@[simp] theorem fieldType?_move (c : CtorDef) :
    (sig.move g).fieldType? (c.move g) = (sig.fieldType? c).map (TypeDef.move g) := by
  unfold fieldType?
  rw [CtorDef.field_move]
  cases c.field with
  | none => rfl
  | some field => exact sig.type?_move g field

/-- Of all constructors of a name each is found with its type, both moved. -/
@[simp] theorem ctorsNamed_move (name : String) :
    (sig.move g).ctorsNamed name = (sig.ctorsNamed name).map (CtorDef.moveWith g) := by
  simp only [ctorsNamed, move, List.flatMap_map, List.map_flatMap]
  congr 1
  funext ty
  simp only [TypeDef.move, List.filter_map, List.map_map]
  rfl

end Signature

/-- Nothing else is missing of a type that is declared elsewhere. -/
theorem Shape.missing_move (sig : Signature) (ty : TypeDef) (shapes : List Shape) :
    missing (sig.move g) (ty.move g) shapes = missing sig ty shapes := by
  -- along the recursion of the search, whose cases look at names and at fields only
  induction ty, shapes using missing.induct with
  | case1 ty shapes hany => rw [missing_of_any hany, missing_of_any hany]
  | case2 ty shapes hany ih =>
    have hany : shapes.any isAny = false := Bool.eq_false_iff.mpr hany
    rw [missing_eq_flatMap hany, missing_eq_flatMap hany, TypeDef.move, List.flatMap_map]
    refine List.flatMap_congr fun c _ => ?_
    -- the constructor is another one, but it is named and has a field just as before
    change missingOf (sig.move g) (ty.move g) shapes (c.move g) = _
    simp only [missingOf, TypeDef.ref_move, Signature.fieldType?_move]
    split
    · next hnamed =>
      cases sig.fieldType? c with
      | none => rfl
      | some fieldTy => exact congrArg _ (ih c hnamed fieldTy)
    · rfl

/-! ### Declaring -/

/-- A wrong declaration of moved names. -/
def DeclError.move : DeclError → DeclError
  | duplicateType name first => duplicateType (name.move g) (g first)
  | duplicateCtor name owner first => duplicateCtor (name.move g) owner (g first)
  | unknownType name => unknownType (name.move g)

theorem DeclError.move_id : move id = id := by
  funext e
  cases e <;> rfl

/-- Repeated constructors are told by their names, and move along with the ones they repeat. -/
theorem CtorDecl.repeatsFrom_move (kept cs : List CtorDecl) :
    repeatsFrom (kept.map (move g)) (cs.map (move g)) =
      (repeatsFrom kept cs).map (Prod.map (move g) (move g)) := by
  induction cs generalizing kept with
  | nil => rfl
  | cons c cs ih =>
    have hkept := ih (kept ++ [c])
    rw [List.map_append] at hkept
    -- the first of a name is the same, since names are not moved
    have hfirst : (kept.map (move g)).find? (·.name.name = (c.move g).name.name) =
        (kept.find? (·.name.name = c.name.name)).map (move g) := List.find?_map
    simp only [List.map_cons, repeatsFrom, hfirst]
    cases kept.find? (·.name.name = c.name.name) with
    | none => exact hkept
    | some first => exact congrArg _ (ih kept)

/-- A moved declaration defines the moved type. -/
theorem EnumDecl.define_move (d : EnumDecl) : (d.move g).define = d.define.move g := by
  have hfirsts : firstsBy (·.name.name) [] (d.ctors.map (CtorDecl.move g)) =
      (firstsBy (·.name.name) [] d.ctors).map (CtorDecl.move g) :=
    firstsBy_map _ (fun _ => rfl) [] d.ctors
  simp only [define, TypeDef.move, move, hfirsts, List.map_map, Ident.move]
  -- constructor by constructor, the name, the place and the field agree
  congr 2
  funext c
  simp only [Function.comp_apply, CtorDecl.define, CtorDecl.move, CtorDef.move, Option.map_map,
    Ident.move]
  rfl

/-- The errors of repeated names move along. -/
theorem EnumDecl.repeatErrorsFrom_move (kept ds : List EnumDecl) :
    repeatErrorsFrom (kept.map (move g)) (ds.map (move g)) =
      (repeatErrorsFrom kept ds).map (DeclError.move g) := by
  induction ds generalizing kept with
  | nil => rfl
  | cons d ds ih =>
    -- the declarations that came first are moved along with the others
    have hkept := ih (kept ++ [d])
    rw [List.map_append] at hkept
    have hfirst : (kept.map (move g)).find? (·.name.name = (d.move g).name.name) =
        (kept.find? (·.name.name = d.name.name)).map (move g) := List.find?_map
    simp only [List.map_cons, repeatErrorsFrom, hfirst]
    cases kept.find? (·.name.name = d.name.name) with
    | some first => exact congrArg _ (ih kept)
    | none =>
      -- the type is kept, so that its constructors are looked at
      have hrepeats := CtorDecl.repeatsFrom_move g [] d.ctors
      rw [List.map_nil] at hrepeats
      simp only [Option.map_none, List.map_append, List.map_map, move, hrepeats]
      exact congrArg _ hkept

namespace Program

variable (p : Program)

/-- **The signature of a moved program is the moved signature.** -/
@[simp] theorem signature_move : (p.move g).signature = p.signature.move g := by
  have hfirsts : firstsBy (·.name.name) [] (p.enumDecls.map (EnumDecl.move g)) =
      (firstsBy (·.name.name) [] p.enumDecls).map (EnumDecl.move g) :=
    firstsBy_map _ (fun _ => rfl) [] p.enumDecls
  simp only [signature, enumDecls_move, hfirsts, Signature.move, List.map_map]
  congr 2
  funext d
  exact d.define_move g

theorem writtenFields_move : (p.move g).writtenFields = p.writtenFields.map (Ident.move g) := by
  simp only [writtenFields, enumDecls_move, List.flatMap_map, List.map_flatMap]
  refine List.flatMap_congr fun d _ => ?_
  simp only [EnumDecl.move, List.filterMap_map, List.map_filterMap]
  rfl

/-- **The errors of moved declarations are the moved errors.** -/
theorem declErrors_move : (p.move g).declErrors = p.declErrors.map (DeclError.move g) := by
  have hrepeats := EnumDecl.repeatErrorsFrom_move g [] p.enumDecls
  rw [List.map_nil] at hrepeats
  simp only [declErrors, enumDecls_move, hrepeats, writtenFields_move, signature_move,
    List.map_append, List.filter_map, List.map_map]
  congr 2
  -- whether a type is declared depends on its name alone
  refine List.filter_congr fun f _ => ?_
  simp

/-- Where larger pieces are put does not matter for the signature. -/
@[simp] theorem signature_relocate (h : Span → Span) :
    (p.relocate g h).signature = p.signature.move g := by
  -- moving nothing forgets the larger pieces, which the signature does not know
  have hmove := (p.relocate g h).signature_move id
  rw [p.move_relocate, Function.id_comp, signature_move, Signature.move_id] at hmove
  exact hmove.symm

/-- Where larger pieces are put does not matter for the errors of declarations. -/
theorem declErrors_relocate (h : Span → Span) :
    (p.relocate g h).declErrors = p.declErrors.map (DeclError.move g) := by
  have hmove := (p.relocate g h).declErrors_move id
  rw [p.move_relocate, Function.id_comp, declErrors_move, DeclError.move_id, List.map_id] at hmove
  exact hmove.symm

end Program

/-! ### Resolving -/

/-- A misfit of moved names. -/
def MatchError.move : MatchError → MatchError
  | unknownScrutinee name => unknownScrutinee (name.move g)
  | ambiguousScrutinee name candidates =>
    ambiguousScrutinee (name.move g) (candidates.map (CtorDef.moveWith g))
  | wrongType name found expected =>
    wrongType (name.move g) (CtorDef.moveWith g found) (expected.move g)
  | unknownArgument name expected => unknownArgument (name.move g) (expected.move g)
  | unknownCtor name expected => unknownCtor (name.move g) (expected.move g)
  | argumentCount ctor _ given => argumentCount (ctor.move g) default given

variable (h : Span → Span)

/-- A misfit of moved names in relocated pieces. -/
def MatchError.relocate : MatchError → MatchError
  | argumentCount ctor span given => argumentCount (ctor.move g) (h span) given
  | e => e.move g

/-- A misfit is moved if the place of its piece is forgotten. -/
theorem MatchError.relocate_forget : relocate g .forget = move g := by
  funext e
  cases e <;> rfl

namespace Signature

variable (sig : Signature)

/-- A name that stands in a wrong place is reported with the first constructor of that name,
relocated. -/
theorem misplaced_relocate (expected : TypeDef) (name : Ident) (unknown : MatchError) :
    (sig.move g).misplaced (expected.move g) (name.move g) (unknown.relocate g h) =
      (sig.misplaced expected name unknown).relocate g h := by
  unfold misplaced
  rw [Ident.name_move, ctorsNamed_move, List.head?_map]
  cases (sig.ctorsNamed name.name).head? <;> rfl

/-- **A relocated pattern resolves to the same shape**, or to the relocated error. -/
theorem resolve_relocate (ty : TypeDef) (p : Pattern) :
    (sig.move g).resolve (ty.move g) (p.relocate g h) =
      (sig.resolve ty p).mapError (MatchError.relocate g h) := by
  cases p with
  | wildcard _ =>
    rw [Pattern.relocate, resolve, resolve]
    rfl
  | ctor span name args =>
    rw [Pattern.relocate, Pattern.relocateAll_eq_map, resolve, resolve, Ident.name_move,
      TypeDef.ctor?_move]
    cases ty.ctor? name.name with
    | none =>
      exact congrArg Except.error (sig.misplaced_relocate g h ty name (.unknownCtor name ty))
    | some c =>
      simp only [Option.map_some, CtorDef.field_move]
      have hcount : (Except.error (.argumentCount (c.move g) (h span)
          (args.map (Pattern.relocate g h)).length) : Except MatchError Shape) =
            (Except.error (.argumentCount c span args.length)).mapError
              (MatchError.relocate g h) := by
        rw [List.length_map]
        rfl
      -- only a field with one argument goes down to the argument
      cases c.field with
      | none =>
        cases args with
        | nil => rfl
        | cons arg args => exact hcount
      | some field =>
        rcases args with _ | ⟨arg, _ | ⟨second, args⟩⟩
        · exact hcount
        · simp only [List.map_cons, List.map_nil, type?_move]
          cases sig.type? field with
          | none => rfl
          | some fieldTy =>
            simp only [Option.map_some, resolve_relocate fieldTy arg]
            cases sig.resolve fieldTy arg <;> rfl
        · exact hcount
termination_by p

/-- **The first wrong argument of a relocated expression** is reported as the relocated error. -/
theorem argumentError?_relocate (c : CtorDef) (e : Expr) :
    (sig.move g).argumentError? (c.move g) (e.relocate g h) =
      (sig.argumentError? c e).map (MatchError.relocate g h) := by
  fun_induction sig.argumentError? c e with
  -- along the recursion of the search: an argument is looked at if there is one and it has a type
  | case1 c span name hfield =>
    rw [Expr.relocate, argumentError?.eq_def]
    simp only [Expr.relocateAll, CtorDef.field_move, hfield]
    rfl
  | case2 c span name field arg hfield fieldTy htype d hctor ih =>
    rw [Expr.relocate, argumentError?.eq_def]
    simp only [Expr.relocateAll, CtorDef.field_move, hfield, type?_move,
      htype, Option.map_some, Expr.name_relocate, Ident.name_move, TypeDef.ctor?_move, hctor, ih]
  | case3 c span name field arg hfield fieldTy htype hctor =>
    rw [Expr.relocate, argumentError?.eq_def]
    simp only [Expr.relocateAll, CtorDef.field_move, hfield, type?_move,
      htype, Option.map_some, Expr.name_relocate, Ident.name_move, TypeDef.ctor?_move, hctor,
      Option.map_none]
    -- an argument of another type is reported with that type
    exact congrArg some
      (sig.misplaced_relocate g h fieldTy arg.name (.unknownArgument arg.name fieldTy))
  | case4 c span name field arg hfield htype =>
    rw [Expr.relocate, argumentError?.eq_def]
    simp only [Expr.relocateAll, CtorDef.field_move, hfield, type?_move,
      htype, Option.map_none]
  | case5 c span name args hnone hsome =>
    -- arguments that do not fit the field still do not, as many as there are
    rw [Expr.relocate, argumentError?.eq_def]
    simp only [Expr.relocateAll_eq_map, CtorDef.field_move]
    split
    · next hfield hargs => exact (hnone hfield (List.map_eq_nil_iff.mp hargs)).elim
    · next field arg hfield hargs =>
      obtain ⟨arg', hargs', -⟩ := List.map_eq_singleton_iff.mp hargs
      exact (hsome field arg' hfield hargs').elim
    · rw [List.length_map]
      rfl

/-- The candidates for an expression are told by its name and by how many arguments it has. -/
theorem candidates_relocate (e : Expr) :
    (sig.move g).candidates (e.relocate g h) = (sig.candidates e).map (CtorDef.moveWith g) := by
  -- arity does not depend on places
  have hfitting : ((sig.ctorsNamed e.name.name).map (CtorDef.moveWith g)).filter
      (fun found => decide (found.2.arity = e.args.length)) =
        ((sig.ctorsNamed e.name.name).filter
          (fun found => decide (found.2.arity = e.args.length))).map (CtorDef.moveWith g) :=
    List.filter_map
  simp only [candidates, Expr.name_relocate, Ident.name_move, Expr.args_relocate, ctorsNamed_move,
    List.length_map, hfitting, List.isEmpty_map]
  split <;> rfl

/-- The type of a relocated expression is the moved type, or the error is relocated. -/
theorem scrutinee_relocate (e : Expr) :
    (sig.move g).scrutinee (e.relocate g h) =
      ((sig.scrutinee e).mapError (MatchError.relocate g h)).map (CtorDef.moveWith g) := by
  unfold scrutinee
  rw [candidates_relocate, Expr.name_relocate]
  rcases sig.candidates e with _ | ⟨found, _ | ⟨other, several⟩⟩ <;> rfl

variable (ty : TypeDef) (arms : List Arm)

/-- Relocated arms have the shapes that they had. -/
theorem resolvedArms_relocate :
    (sig.move g).resolvedArms (ty.move g) (arms.map (Arm.relocate g h)) =
      (sig.resolvedArms ty arms).map (Prod.map (Arm.relocate g h) id) := by
  simp only [resolvedArms, List.filterMap_map, List.map_filterMap]
  refine List.filterMap_congr fun arm _ => ?_
  simp only [Function.comp_apply, Arm.relocate, sig.resolve_relocate]
  cases sig.resolve ty arm.pattern <;> rfl

/-- The errors of relocated arms are the relocated errors. -/
theorem armErrors_relocate :
    (sig.move g).armErrors (ty.move g) (arms.map (Arm.relocate g h)) =
      (sig.armErrors ty arms).map (MatchError.relocate g h) := by
  simp only [armErrors, List.filterMap_map, List.map_filterMap]
  refine List.filterMap_congr fun arm _ => ?_
  simp only [Function.comp_apply, Arm.relocate, sig.resolve_relocate]
  cases sig.resolve ty arm.pattern <;> rfl

/-- **Resolving a relocated match** finds the relocated arms and errors. -/
theorem resolveMatch_relocate (m : MatchExpr) :
    (sig.move g).resolveMatch (m.relocate g h) =
      ((sig.resolveMatch m).1.map fun r =>
          ⟨r.type.move g, r.arms.map (Prod.map (Arm.relocate g h) id)⟩,
        (sig.resolveMatch m).2.map (MatchError.relocate g h)) := by
  simp only [resolveMatch, MatchExpr.relocate, scrutinee_relocate]
  -- without a type for the matched expression the arms are not looked at
  cases hscrutinee : sig.scrutinee m.scrutinee with
  | error e => rfl
  | ok found =>
    simp only [Except.mapError, Except.map, CtorDef.moveWith, argumentError?_relocate,
      armErrors_relocate, resolvedArms_relocate, Option.map_some, List.map_append]
    cases sig.argumentError? found.2 m.scrutinee <;> rfl

/-- The misfits of a moved match are the moved misfits. -/
theorem errors_resolveMatch_move (m : MatchExpr) :
    ((sig.move g).resolveMatch (m.move g)).2 =
      (sig.resolveMatch m).2.map (MatchError.move g) := by
  rw [← m.relocate_forget, sig.resolveMatch_relocate, MatchError.relocate_forget]

end Signature

/-! ### Reports -/

/-- What a finding says wherever it is: its code and its message. -/
def Diagnostic.report (d : Diagnostic) : String × String :=
  (d.code, d.message)

/-- What a wrong declaration is reported as. -/
def DeclError.report (e : DeclError) : String × String :=
  e.diagnostic.report

/-- What a misfit is reported as. -/
def MatchError.report (e : MatchError) : String × String :=
  e.diagnostic.report

theorem DeclError.report_move (e : DeclError) : (e.move g).report = e.report := by
  cases e <;> rfl

/-- What a misfit is reported as holds no place. -/
theorem MatchError.report_move (e : MatchError) : (e.move g).report = e.report := by
  cases e with
  | ambiguousScrutinee name candidates =>
    simp only [move, report, diagnostic, List.map_map]
    rfl
  | _ => rfl

/-- What missing cases are reported as. -/
def MatchExpr.missingReport (n : Nat) : List Shape → List (String × String)
  | [] => []
  | cases => [(Code.nonExhaustiveMatch.text, missingMessage cases n)]

namespace MatchExpr

variable (sig : Signature) (n : Nat) (m : MatchExpr)

/-- Without warnings, a match is reported by its misfits and then by the cases that it misses. -/
theorem map_report_check :
    (m.check sig ⟨.allow, n⟩).map Diagnostic.report =
      (sig.resolveMatch m).2.map MatchError.report ++ missingReport n (m.missing sig) := by
  simp only [check, Signature.resolveMatch, missing]
  cases sig.scrutinee m.scrutinee with
  | error e => rfl
  | ok found =>
    simp only [List.map_append, List.map_map]
    refine congrArg _ ?_
    simp only [missingCases, ResolvedMatch.shapes]
    -- at most one finding is about missing cases
    generalize Shape.missing sig found.1 _ = ws
    cases ws <;> rfl

/-- A moved match misses the same cases. -/
theorem missing_move : (m.move g).missing (sig.move g) = m.missing sig := by
  rw [← m.relocate_forget]
  simp only [missing, relocate, Signature.scrutinee_relocate]
  cases sig.scrutinee m.scrutinee with
  | error e => rfl
  | ok found =>
    change Shape.missing (sig.move g) (found.1.move g) _ = _
    rw [sig.resolvedArms_relocate, List.map_map]
    exact Shape.missing_move g sig found.1 _

/-- **A moved match is reported alike.** -/
theorem report_check_move :
    ((m.move g).check (sig.move g) ⟨.allow, n⟩).map Diagnostic.report =
      (m.check sig ⟨.allow, n⟩).map Diagnostic.report := by
  simp only [map_report_check, sig.errors_resolveMatch_move, missing_move, List.map_map]
  congr 2
  funext e
  exact e.report_move g

end MatchExpr

namespace DeclError

/-- The name that a wrong declaration is reported at. -/
def name : DeclError → Ident
  | duplicateType name _ | duplicateCtor name _ _ | unknownType name => name

theorem span_diagnostic (e : DeclError) : e.diagnostic.span = e.name.span := by
  cases e <;> rfl

theorem name_move (e : DeclError) : (e.move g).name = e.name.move g := by
  cases e <;> rfl

end DeclError

/-- The names in a declaration. -/
def EnumDecl.names (d : EnumDecl) : List Ident :=
  d.name :: d.ctors.flatMap fun c => c.name :: c.field.toList

/-- What repeats a name is one of the constructors. -/
theorem CtorDecl.mem_of_mem_repeatsFrom {kept cs : List CtorDecl} {found : CtorDecl × CtorDecl}
    (h : found ∈ repeatsFrom kept cs) : found.2 ∈ cs := by
  fun_induction repeatsFrom kept cs with
  | case1 => cases h
  | case2 kept c cs first _ ih =>
    rcases List.mem_cons.mp h with rfl | h
    · exact List.mem_cons_self
    · exact List.mem_cons_of_mem _ (ih h)
  | case3 kept c cs _ ih => exact List.mem_cons_of_mem _ (ih h)

/-- Repeated names are names in declarations. -/
theorem EnumDecl.name_mem_of_mem_repeatErrorsFrom {kept ds : List EnumDecl} {e : DeclError}
    (h : e ∈ repeatErrorsFrom kept ds) : e.name ∈ ds.flatMap names := by
  fun_induction repeatErrorsFrom kept ds with
  | case1 => cases h
  | case2 kept d ds first _ ih =>
    rw [List.flatMap_cons]
    rcases List.mem_cons.mp h with rfl | h
    · exact List.mem_append_left _ List.mem_cons_self
    · exact List.mem_append_right _ (ih h)
  | case3 kept d ds _ ih =>
    rw [List.flatMap_cons]
    rcases List.mem_append.mp h with h | h
    · -- a constructor that repeats a name stands in the declaration at hand
      obtain ⟨⟨first, c⟩, hfound, rfl⟩ := List.mem_map.mp h
      have hc := CtorDecl.mem_of_mem_repeatsFrom hfound
      exact List.mem_append_left _
        (List.mem_cons_of_mem _ (List.mem_flatMap.mpr ⟨c, hc, List.mem_cons_self⟩))
    · exact List.mem_append_right _ (ih h)

namespace Program

variable {p q : Program}

/-- Wrong declarations are reported at names in declarations. -/
theorem name_mem_of_mem_declErrors {e : DeclError} (h : e ∈ p.declErrors) :
    e.name ∈ p.enumDecls.flatMap EnumDecl.names := by
  -- a repeated name, or the name of a field
  rcases List.mem_append.mp h with h | h
  · exact EnumDecl.name_mem_of_mem_repeatErrorsFrom h
  · obtain ⟨f, hf, rfl⟩ := List.mem_map.mp h
    obtain ⟨d, hd, hf⟩ := List.mem_flatMap.mp (List.mem_of_mem_filter hf)
    obtain ⟨c, hc, hfield⟩ := List.mem_filterMap.mp hf
    refine List.mem_flatMap.mpr ⟨d, hd, List.mem_cons_of_mem _ (List.mem_flatMap.mpr ⟨c, hc, ?_⟩)⟩
    rw [hfield]
    exact List.mem_cons_of_mem _ List.mem_cons_self

/-- Wrong declarations are reported in the order of their names. -/
theorem map_report_declFindings :
    p.declFindings.map Diagnostic.report =
      (p.declErrors.mergeSort fun e f =>
        e.name.span.start.offset ≤ f.name.span.start.offset).map DeclError.report := by
  -- errors are sorted by the names that they are reported at
  have hsort : (p.declErrors.mergeSort fun e f =>
      e.name.span.start.offset ≤ f.name.span.start.offset).map DeclError.diagnostic =
        p.declFindings := by
    refine List.map_mergeSort fun e _ f _ => ?_
    rw [e.span_diagnostic, f.span_diagnostic]
  rw [← hsort, List.map_map]
  rfl

/-- **Moved declarations are reported alike** if their names keep their order. -/
theorem report_declFindings_move
    (h : ∀ a ∈ p.enumDecls.flatMap EnumDecl.names, ∀ b ∈ p.enumDecls.flatMap EnumDecl.names,
      (g a.span).start.offset ≤ (g b.span).start.offset ↔
        a.span.start.offset ≤ b.span.start.offset) :
    (p.move g).declFindings.map Diagnostic.report = p.declFindings.map Diagnostic.report := by
  rw [map_report_declFindings, map_report_declFindings, declErrors_move]
  have hsort : (p.declErrors.mergeSort fun e f =>
      e.name.span.start.offset ≤ f.name.span.start.offset).map (DeclError.move g) =
        (p.declErrors.map (DeclError.move g)).mergeSort fun e f =>
          e.name.span.start.offset ≤ f.name.span.start.offset := by
    -- an error is placed at a name, and the names keep their order
    refine List.map_mergeSort fun e he f hf => ?_
    rw [e.name_move, f.name_move]
    exact decide_eq_decide.mpr
      (h _ (name_mem_of_mem_declErrors he) _ (name_mem_of_mem_declErrors hf)).symm
  rw [← hsort, List.map_map]
  congr 1
  funext e
  exact e.report_move g

/-- The findings about declarations depend on nothing else of a program. -/
theorem declFindings_congr (h : p.enumDecls = q.enumDecls) : p.declFindings = q.declFindings := by
  simp only [declFindings, declErrors, writtenFields, signature, h]

end Program

end MatchCheck
