import Mathlib.Data.List.Perm.Basic
import MatchCheck.Check.Basic
import MatchCheck.Fix.Basic

/-!
# What findings suggest

Only two kinds of findings suggest an edit: an arm that can never be reached is to be removed, and a
match that misses cases is to get an arm for each. Which of the two are made depends on the options
of the check and on the codes that are selected (`CheckOptions.repair`). Up to their order, the
edits of a program are those of its matches (`Program.edits_check_perm`).
-/

namespace MatchCheck

namespace Fixed

/-- Whether the suggestions of a code are made. -/
def selects (only? : Option (List String)) (code : String) : Bool :=
  match only? with
  | none => true
  | some codes => codes.contains code

/-- The edits that one finding suggests first, if its code is selected. -/
def editsOf (only? : Option (List String)) (d : Diagnostic) : List Edit :=
  if selects only? d.code then (d.suggestions.take 1).flatMap (·.edits) else []

variable {only? : Option (List String)}

/-- The edits of findings are those of each of them, one behind the other. Selecting first and
taking the suggestions then comes to the same. -/
theorem edits_eq_flatMap (ds : List Diagnostic) : edits only? ds = ds.flatMap (editsOf only?) := by
  induction ds with
  | nil => rfl
  | cons d ds ih =>
    rw [List.flatMap_cons, ← ih]
    unfold edits editsOf selects
    -- without a selection all findings are taken
    cases only? with
    | none => simp
    | some codes =>
      simp only [List.filter_cons]
      split <;> simp

theorem edits_append (ds es : List Diagnostic) :
    edits only? (ds ++ es) = edits only? ds ++ edits only? es := by
  simp only [edits_eq_flatMap, List.flatMap_append]

/-- Findings in another order suggest the same edits, in another order. -/
theorem edits_perm {ds es : List Diagnostic} (h : ds.Perm es) :
    (edits only? ds).Perm (edits only? es) := by
  rw [edits_eq_flatMap, edits_eq_flatMap]
  exact h.flatMap_right _

/-- Findings without suggestions suggest no edits. -/
theorem edits_eq_nil {ds : List Diagnostic} (h : ∀ d ∈ ds, d.suggestions = []) :
    edits only? ds = [] := by
  rw [edits_eq_flatMap, List.flatMap_eq_nil_iff]
  intro d hd
  simp [editsOf, h d hd]

end Fixed

/-- What is done about the findings of a check. -/
structure Repair where
  /-- Arms that can never be reached are removed. -/
  removes : Bool
  /-- Arms for missing cases are added. -/
  adds : Bool
deriving DecidableEq, Repr

/-- What the selected codes do about the findings of a check. -/
def CheckOptions.repair (options : CheckOptions) (only? : Option (List String)) : Repair where
  removes := options.redundantArms == .warn && Fixed.selects only? Code.unreachableArm.text
  adds := Fixed.selects only? Code.nonExhaustiveMatch.text

namespace MatchExpr

variable (sig : Signature) (repair : Repair)

/-- The cases that a match misses. Without a type for the matched expression nothing is missing. -/
def missing (m : MatchExpr) : List Shape :=
  match sig.scrutinee m.scrutinee with
  | .error _ => []
  | .ok (ty, _) => Shape.missing sig ty ((sig.resolvedArms ty m.arms).map (·.2))

/-- The arms of a match that can never be reached. -/
def unreachable (m : MatchExpr) : List Arm :=
  match sig.scrutinee m.scrutinee with
  | .error _ => []
  | .ok (ty, _) => (Shape.unreachableFrom sig ty [] (sig.resolvedArms ty m.arms)).map (·.1)

/-- The arms that a repair removes. -/
def removed (m : MatchExpr) : List Arm :=
  if repair.removes then m.unreachable sig else []

/-- The cases for which a repair adds arms. -/
def added (m : MatchExpr) : List Shape :=
  if repair.adds then m.missing sig else []

/-- The edit that adds arms for cases. -/
def insertion (m : MatchExpr) (cases : List Shape) : Edit :=
  ⟨m.closeSpan.shrinkToStart, String.join (cases.map newArm)⟩

/-- The edit that adds arms for cases, if there are any. -/
def insertions (m : MatchExpr) : List Shape → List Edit
  | [] => []
  | cases => [m.insertion cases]

/-- The edits that a repair makes in a match. -/
def repairEdits (m : MatchExpr) : List Edit :=
  (m.removed sig repair).map (fun arm => ⟨arm.span, ""⟩) ++ m.insertions (m.added sig repair)

variable {sig} {m : MatchExpr} {ty : TypeDef} {c : CtorDef}

theorem missing_of_scrutinee (h : sig.scrutinee m.scrutinee = .ok (ty, c)) :
    m.missing sig = Shape.missing sig ty ((sig.resolvedArms ty m.arms).map (·.2)) := by
  simp only [missing, h]

/-- Only of a known type anything is missing. -/
theorem exists_scrutinee_of_mem_missing {s : Shape} (hs : s ∈ m.missing sig) :
    ∃ ty c, sig.scrutinee m.scrutinee = .ok (ty, c) := by
  unfold missing at hs
  split at hs
  · cases hs
  · next ty c hscrutinee => exact ⟨ty, c, hscrutinee⟩

end MatchExpr

/-! ### The edits of a check -/

theorem DeclError.suggestions_diagnostic (e : DeclError) : e.diagnostic.suggestions = [] := by
  cases e <;> rfl

theorem MatchError.suggestions_diagnostic (e : MatchError) : e.diagnostic.suggestions = [] := by
  cases e <;> rfl

section Edits

variable {sig : Signature} {only? : Option (List String)}

theorem edits_matchErrors (errors : List MatchError) :
    Fixed.edits only? (errors.map MatchError.diagnostic) = [] :=
  Fixed.edits_eq_nil (List.forall_mem_map.mpr fun e _ => e.suggestions_diagnostic)

theorem Program.edits_declFindings (p : Program) : Fixed.edits only? p.declFindings = [] := by
  refine Fixed.edits_eq_nil fun d hd => ?_
  obtain ⟨e, -, rfl⟩ := List.mem_map.mp (List.mem_mergeSort.mp hd)
  exact e.suggestions_diagnostic

/-- An arm that can never be reached is to be removed. -/
theorem editsOf_unreachableArm (arm : Arm) (shape : Shape) :
    Fixed.editsOf only? (unreachableArm arm shape) =
      if Fixed.selects only? Code.unreachableArm.text then [⟨arm.span, ""⟩] else [] := rfl

/-- A match that misses cases is to get arms for them. -/
theorem editsOf_nonExhaustive (m : MatchExpr) (ty : TypeDef) (cases : List Shape) (n : Nat) :
    Fixed.editsOf only? (nonExhaustive m ty cases n) =
      if Fixed.selects only? Code.nonExhaustiveMatch.text then [m.insertion cases] else [] := rfl

/-- The edits for the arms of a match that can never be reached. -/
theorem edits_unreachableArms (r : ResolvedMatch) :
    Fixed.edits only? (unreachableArms sig r) =
      if Fixed.selects only? Code.unreachableArm.text then
        ((Shape.unreachableFrom sig r.type [] r.arms).map (·.1)).map (fun arm => ⟨arm.span, ""⟩)
      else [] := by
  simp only [Fixed.edits_eq_flatMap, unreachableArms, List.flatMap_map, editsOf_unreachableArm]
  split
  · rw [List.map_map, List.map_eq_flatMap]
    rfl
  · simp

/-- The edits for the cases that a match misses. -/
theorem edits_missingCases (options : CheckOptions) (m : MatchExpr) (r : ResolvedMatch) :
    Fixed.edits only? (missingCases sig options m r).toList =
      m.insertions (if Fixed.selects only? Code.nonExhaustiveMatch.text then
        Shape.missing sig r.type r.shapes else []) := by
  rw [Fixed.edits_eq_flatMap, missingCases]
  -- only if something is missing there is a finding
  cases hmissing : Shape.missing sig r.type r.shapes with
  | nil => simp [MatchExpr.insertions]
  | cons w ws =>
    rw [Option.toList_some, List.flatMap_singleton, editsOf_nonExhaustive]
    split <;> rfl

/-- The findings about a match suggest the edits of the repair, in whatever order. -/
theorem MatchExpr.edits_check_perm (options : CheckOptions) (m : MatchExpr) :
    (Fixed.edits only? (m.check sig options)).Perm
      (m.repairEdits sig (options.repair only?)) := by
  simp only [MatchExpr.check, Signature.resolveMatch, repairEdits, removed, added, unreachable,
    missing]
  -- without a type there is only the error, which suggests nothing
  cases hscrutinee : sig.scrutinee m.scrutinee with
  | error e =>
    simp [Fixed.edits_eq_flatMap, Fixed.editsOf, e.suggestions_diagnostic, insertions]
  | ok found =>
    obtain ⟨ty, c⟩ := found
    dsimp only
    rw [Fixed.edits_append, edits_missingCases]
    -- misfits and unreachable arms are sorted together, so their edits are only a permutation
    refine List.Perm.append ?_ (.refl _)
    cases hredundant : options.redundantArms with
    | allow =>
      rw [edits_matchErrors]
      simp [CheckOptions.repair, hredundant]
    | warn =>
      refine (Fixed.edits_perm (List.mergeSort_perm _ _)).trans ?_
      rw [Fixed.edits_append, edits_matchErrors, edits_unreachableArms]
      simp only [CheckOptions.repair, hredundant]
      split <;> simp_all

end Edits

/-- **The edits of a program.** The findings about a program suggest the edits of the repair of its
matches, in whatever order. -/
theorem Program.edits_check_perm (options : CheckOptions) (only? : Option (List String))
    (p : Program) :
    (Fixed.edits only? (p.check options)).Perm
      (p.matchExprs.flatMap (MatchExpr.repairEdits p.signature (options.repair only?))) := by
  rw [Program.check, Fixed.edits_append, p.edits_declFindings, List.nil_append,
    Fixed.edits_eq_flatMap, List.flatMap_assoc]
  -- match by match, in the order of the program
  refine List.Perm.flatMap_left _ fun m _ => ?_
  rw [← Fixed.edits_eq_flatMap]
  exact m.edits_check_perm options

end MatchCheck
