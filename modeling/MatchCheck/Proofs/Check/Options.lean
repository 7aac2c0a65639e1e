import MatchCheck.Proofs.Check.Order
import MatchCheck.Proofs.Diagnostic.Codes

/-!
# Options do not interfere with errors

Options say whether arms that can never be reached are reported, and how many missing cases a
message lists. Both touch the errors around them: warnings are sorted among the errors of their
match, and the list of missing cases is worded differently. But the errors of a match are in order
before any warning is added, so sorting leaves them as they are (`MatchExpr.filter_check`), and what
is missing is the same, with the same suggestion, however much of it is listed.
-/

namespace MatchCheck

/-! ### What depends on options -/

namespace Diagnostic

/-- Whether a finding is about an arm that can never be reached. -/
def isUnreachable (d : Diagnostic) : Bool :=
  d.code = Code.unreachableArm.text

/-- A finding without the message that lists missing cases. -/
def forgetCases (d : Diagnostic) : Diagnostic :=
  if d.code = Code.nonExhaustiveMatch.text then { d with message := "" } else d

/-- A finding of another code is not about an unreachable arm. -/
theorem isUnreachable_eq_false {d : Diagnostic} {c : Code} (hcode : d.code = c.text)
    (hc : c ≠ .unreachableArm) : d.isUnreachable = false := by
  rwa [isUnreachable, hcode, decide_eq_false_iff_not, Code.text_inj]

end Diagnostic

/-! ### Findings about a match -/

namespace MatchExpr

variable {sig : Signature} {m : MatchExpr}

theorem isUnreachable_errors (es : List MatchError) :
    ∀ d ∈ es.map MatchError.diagnostic, d.isUnreachable = false :=
  List.forall_mem_map.mpr fun e _ =>
    Diagnostic.isUnreachable_eq_false e.code_diagnostic e.code_ne_unreachableArm

theorem isUnreachable_unreachableArms (r : ResolvedMatch) :
    ∀ d ∈ unreachableArms sig r, d.isUnreachable = true := by
  refine List.forall_mem_map.mpr fun row _ => ?_
  exact decide_eq_true rfl

theorem isUnreachable_missingFinding {options : CheckOptions} :
    ∀ d ∈ (m.missingFinding sig options).toList, d.isUnreachable = false := by
  intro d hd
  obtain ⟨ty, missing, rfl⟩ := exists_of_mem_missingFinding (Option.mem_toList.mp hd)
  exact Diagnostic.isUnreachable_eq_false rfl (c := .nonExhaustiveMatch) (by simp)

/-- However many missing cases are listed, they are the same. -/
theorem forgetCases_missingFinding (options options' : CheckOptions) :
    (m.missingFinding sig options).map Diagnostic.forgetCases =
      (m.missingFinding sig options').map Diagnostic.forgetCases := by
  unfold missingFinding
  cases (sig.resolveMatch m).1 with
  | none => rfl
  | some r =>
    simp only [Option.bind_some, missingCases]
    cases Shape.missing sig r.type r.shapes with
    | nil => rfl
    | cons case cases =>
      -- the two findings differ in the message alone, and it is forgotten
      simp [Diagnostic.forgetCases, nonExhaustive, Diagnostic.error, Diagnostic.addNote,
        Diagnostic.addSuggestion]

/-- **Without warnings, a match is reported by its errors**, as they are found, and by the cases
that it misses. -/
theorem filter_check {source : Source} (hsound : m.layout.Sound source)
    (hproper : m.layout.All Span.Proper) (options : CheckOptions) :
    (m.check sig options).filter (!·.isUnreachable) =
      (sig.resolveMatch m).2.map MatchError.diagnostic ++
        (m.missingFinding sig options).toList := by
  have hkept {ds : List Diagnostic} (h : ∀ d ∈ ds, d.isUnreachable = false) :
      ∀ d ∈ ds, (!d.isUnreachable) = true := fun d hd => by rw [h d hd, Bool.not_false]
  rw [check_eq, List.filter_append, List.filter_eq_self.mpr (hkept isUnreachable_missingFinding)]
  refine congrArg (· ++ _) ?_
  have herrors := hkept (isUnreachable_errors (sig.resolveMatch m).2)
  simp only [misfits]
  cases options.redundantArms with
  | allow =>
    simp only [List.append_nil]
    exact List.filter_eq_self.mpr herrors
  | warn =>
    -- the errors ascend before the warnings are added, so sorting cannot move them apart
    refine Diagnostic.filter_sortByStart_append ?_ herrors ?_
    · exact (ascending_errors hsound hproper).imp Diagnostic.StartsLT.le
    · cases (sig.resolveMatch m).1 with
      | none => simp
      | some r => exact fun d hd => by rw [isUnreachable_unreachableArms r d hd, Bool.not_true]

/-- Warnings that are not asked for are not given. -/
theorem isUnreachable_check_allow (n : Nat) :
    ∀ d ∈ m.check sig ⟨.allow, n⟩, d.isUnreachable = false := by
  rw [check_eq]
  simp only [misfits, List.append_nil]
  exact List.forall_mem_append.mpr ⟨isUnreachable_errors _, isUnreachable_missingFinding⟩

end MatchExpr

/-! ### Findings about a source -/

/-- **Options do not interfere with errors.** Whatever the options are, the findings about a source
are the same, one by one, without those about arms that can never be reached and without the
messages that list missing cases. If such arms are not to be reported, none is. -/
theorem Source.errors_independent_of_options (source : Source) :
    (∀ options options' : CheckOptions,
      ((source.check options).filter (!·.isUnreachable)).map Diagnostic.forgetCases =
        ((source.check options').filter (!·.isUnreachable)).map Diagnostic.forgetCases) ∧
      ∀ n, ∀ d ∈ source.check ⟨.allow, n⟩, d.isUnreachable = false := by
  constructor
  · intro options options'
    -- only the matches see the options
    simp only [check, Program.check, List.filter_append, List.map_append, List.filter_flatMap,
      List.map_flatMap]
    refine congrArg _ (congrArg _ (List.flatMap_congr fun m hm => ?_))
    obtain ⟨hsound, hproper⟩ := source.sound_matchExprs m hm
    rw [m.filter_check hsound hproper, m.filter_check hsound hproper, List.map_append,
      List.map_append, ← Option.toList_map, ← Option.toList_map,
      m.forgetCases_missingFinding options options']
  · intro n d hd
    -- errors of syntax, of declarations and of matches have other codes
    rcases List.mem_append.mp hd with hd | hd
    · obtain ⟨e, -, rfl⟩ := List.mem_map.mp hd
      exact Diagnostic.isUnreachable_eq_false e.code_diagnostic e.code_ne_unreachableArm
    rcases List.mem_append.mp hd with hd | hd
    · obtain ⟨e, -, rfl⟩ := List.mem_map.mp ((Diagnostic.sortByStart_perm _).subset hd)
      exact Diagnostic.isUnreachable_eq_false e.code_diagnostic e.code_ne_unreachableArm
    · obtain ⟨m, -, hd⟩ := List.mem_flatMap.mp hd
      exact m.isUnreachable_check_allow n d hd

end MatchCheck
