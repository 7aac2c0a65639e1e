import MatchCheck.Proofs.Check.Moved
import MatchCheck.Proofs.Program.Rank

/-!
# Checking a relocated program

A finding takes its spans from the pieces of the program that it is about. So a program whose pieces
are put elsewhere has the same findings, with their spans put elsewhere likewise. Before the
findings about a match are sorted this is so wherever the pieces are put
(`MatchExpr.misfits_relocate`). If the pieces keep the order of their starts, the sorted findings
come in the same order too, and without their spans they are equal (`Program.erase_check_relocate`).

A source is read as its forms are, put elsewhere in a way that keeps all order. So the findings
about a source are those about its forms, whatever its layout is (`Source.erase_check`).
-/

namespace MatchCheck

variable (g h : Span → Span)

/-! ### Findings at other places -/

namespace Diagnostic

/-- Findings that keep the order of their starts are sorted alike. -/
theorem sortByStart_relocate
    (hg : ∀ s t, (g s).start.offset ≤ (g t).start.offset ↔ s.start.offset ≤ t.start.offset)
    (ds : List Diagnostic) :
    sortByStart (ds.map (relocate g)) = (sortByStart ds).map (relocate g) := by
  refine (List.map_mergeSort fun d _ e _ => ?_).symm
  exact decide_eq_decide.mpr (hg d.span e.span).symm

theorem mem_sortByStart {d : Diagnostic} {ds : List Diagnostic} : d ∈ sortByStart ds ↔ d ∈ ds :=
  List.mem_mergeSort

end Diagnostic

/-- What is reported about a declaration is put elsewhere with it. -/
theorem DeclError.diagnostic_move (e : DeclError) :
    (e.move g).diagnostic = e.diagnostic.relocate g := by
  cases e <;> rfl

theorem MatchError.diagnostic_relocate (e : MatchError) :
    (e.relocate g g).diagnostic = e.diagnostic.relocate g := by
  cases e with
  | ambiguousScrutinee name candidates =>
    simp only [relocate, move, diagnostic, Diagnostic.relocate, List.map_map]
    rfl
  | _ => rfl

/-! ### Arms that can never be reached -/

namespace Shape

variable (sig : Signature) (ty : TypeDef)

/-- Usefulness does not depend on places. -/
theorem useful_move (earlier : List Shape) (s : Shape) :
    useful (sig.move g) (ty.move g) earlier s = useful sig ty earlier s := by
  -- down the shape, into the type of the field
  induction s generalizing ty earlier with
  | any => rw [useful, useful, exhaustive, exhaustive, missing_move]
  | bare c => rw [useful, useful]
  | wrap c arg ih =>
    -- only the lookup of the field type reads the signature, and it finds the moved type
    have hctor : (sig.move g).ctor? c = (sig.ctor? c).map (CtorDef.move g) := by
      simp only [Signature.ctor?, Signature.type?_move]
      cases sig.type? c.owner with
      | none => rfl
      | some owner => exact owner.ctor?_move g c.name
    have hfield : ((sig.move g).ctor? c).bind (sig.move g).fieldType? =
        ((sig.ctor? c).bind sig.fieldType?).map (TypeDef.move g) := by
      rw [hctor]
      cases sig.ctor? c with
      | none => rfl
      | some d => exact sig.fieldType?_move g d
    rw [useful, useful, hfield]
    cases (sig.ctor? c).bind sig.fieldType? with
    | none => rfl
    | some fieldTy => simp only [Option.map_some, ih]

/-- Nor does it depend on places which arms can never be reached. -/
theorem unreachableFrom_move {α β : Type} (f : α → β) (earlier : List Shape)
    (rows : List (α × Shape)) :
    unreachableFrom (sig.move g) (ty.move g) earlier (rows.map (Prod.map f id)) =
      (unreachableFrom sig ty earlier rows).map (Prod.map f id) := by
  induction rows generalizing earlier with
  | nil => rfl
  | cons row rows ih =>
    obtain ⟨a, s⟩ := row
    simp only [List.map_cons, Prod.map_apply, id_eq, unreachableFrom, useful_move, ih]
    split <;> rfl

end Shape

/-! ### The findings about a match -/

namespace MatchExpr

variable (sig : Signature) (options : CheckOptions) (m : MatchExpr)

/-- What a match is reported for, apart from missing cases: its errors and then, if they are asked
for, its arms that can never be reached. -/
def misfits : List Diagnostic :=
  (sig.resolveMatch m).2.map MatchError.diagnostic ++
    match options.redundantArms, (sig.resolveMatch m).1 with
    | .warn, some r => unreachableArms sig r
    | _, _ => []

/-- The finding about the cases that a match misses, if its type is known and it misses any. -/
def missingFinding : Option Diagnostic :=
  (sig.resolveMatch m).1.bind (missingCases sig options m)

/-- The findings about a match are its misfits, which are sorted if unreachable arms are among them,
and then its missing cases. -/
theorem check_eq :
    m.check sig options =
      (match options.redundantArms with
        | .allow => m.misfits sig options
        | .warn => Diagnostic.sortByStart (m.misfits sig options)) ++
        (m.missingFinding sig options).toList := by
  obtain ⟨redundant, n⟩ := options
  simp only [check, misfits, missingFinding, Signature.resolveMatch]
  cases sig.scrutinee m.scrutinee with
  | error e =>
    -- one error alone is sorted
    cases redundant <;> simp [Diagnostic.sortByStart]
  | ok found => cases redundant <;> simp

/-- **What a finding about missing cases is.** -/
theorem exists_of_mem_missingFinding {sig : Signature} {options : CheckOptions} {m : MatchExpr}
    {d : Diagnostic} (hd : d ∈ m.missingFinding sig options) :
    ∃ ty missing, d = nonExhaustive m ty missing options.maxWitnesses := by
  obtain ⟨r, -, hd⟩ := Option.bind_eq_some_iff.mp hd
  unfold missingCases at hd
  split at hd
  · cases hd
  · exact ⟨r.type, _, (Option.some.inj hd).symm⟩

/-- **Misfits of a relocated match** are relocated. -/
theorem misfits_relocate :
    (m.relocate g g).misfits (sig.move g) options =
      (m.misfits sig options).map (Diagnostic.relocate g) := by
  have herrors (es : List MatchError) :
      (es.map (MatchError.relocate g g)).map MatchError.diagnostic =
        (es.map MatchError.diagnostic).map (Diagnostic.relocate g) := by
    rw [List.map_map, List.map_map]
    exact List.map_congr_left fun e _ => e.diagnostic_relocate g
  -- which arms are unreachable is told by their shapes, and those have no spans
  have harms (r : ResolvedMatch) :
      unreachableArms (sig.move g) ⟨r.type.move g, r.arms.map (Prod.map (Arm.relocate g g) id)⟩ =
        (unreachableArms sig r).map (Diagnostic.relocate g) := by
    rw [unreachableArms, unreachableArms, Shape.unreachableFrom_move, List.map_map, List.map_map]
    refine List.map_congr_left fun row _ => ?_
    simp only [Function.comp_apply, Prod.map, unreachableArm, Arm.relocate, Pattern.span_relocate]
    rfl
  simp only [misfits, sig.resolveMatch_relocate, herrors, List.map_append]
  refine congrArg _ ?_
  cases options.redundantArms with
  | allow => rfl
  | warn =>
    cases (sig.resolveMatch m).1 with
    | none => rfl
    | some r => exact harms r

/-- Without its places, a finding about missing cases stays the same. -/
theorem erase_missingFinding_relocate :
    ((m.relocate g h).missingFinding (sig.move g) options).map Diagnostic.erase =
      (m.missingFinding sig options).map Diagnostic.erase := by
  simp only [missingFinding, sig.resolveMatch_relocate]
  -- without a type there is nothing that could be missing
  cases (sig.resolveMatch m).1 with
  | none => rfl
  | some r =>
    have hshapes : (r.arms.map (Prod.map (Arm.relocate g h) id)).map (·.2) = r.shapes := by
      rw [List.map_map]
      rfl
    simp only [Option.map_some, Option.bind_some, missingCases, ResolvedMatch.shapes] at hshapes ⊢
    rw [hshapes, Shape.missing_move]
    cases Shape.missing sig r.type (r.arms.map (·.2)) <;> rfl

/-- Without their spans, the findings about a match are those about it where its pieces keep their
order. -/
theorem erase_check_relocate
    (hg : ∀ s t, (g s).start.offset ≤ (g t).start.offset ↔ s.start.offset ≤ t.start.offset) :
    ((m.relocate g g).check (sig.move g) options).map Diagnostic.erase =
      (m.check sig options).map Diagnostic.erase := by
  have hmissing : ((m.relocate g g).missingFinding (sig.move g) options).toList.map
      Diagnostic.erase = (m.missingFinding sig options).toList.map Diagnostic.erase := by
    rw [← Option.toList_map, ← Option.toList_map, erase_missingFinding_relocate]
  rw [check_eq, check_eq, List.map_append, List.map_append, hmissing, misfits_relocate]
  refine congrArg (· ++ _) ?_
  -- with the warning on the findings are sorted, which only looks at the order of the starts
  cases options.redundantArms with
  | allow => exact Diagnostic.map_erase_map_relocate g _
  | warn =>
    simp only [Diagnostic.sortByStart_relocate g hg]
    exact Diagnostic.map_erase_map_relocate g _

end MatchExpr

/-! ### The findings about a program -/

namespace Program

/-- The errors of declarations that are put elsewhere are reported there. -/
theorem map_diagnostic_declErrors_relocate (p : Program) :
    (p.relocate g h).declErrors.map DeclError.diagnostic =
      (p.declErrors.map DeclError.diagnostic).map (Diagnostic.relocate g) := by
  rw [declErrors_relocate, List.map_map, List.map_map]
  exact List.map_congr_left fun e _ => e.diagnostic_move g

/-- **The findings about a relocated program.** If the pieces of a program keep the order of their
starts, it has the same findings in the same order, without their spans. -/
theorem erase_check_relocate
    (hg : ∀ s t, (g s).start.offset ≤ (g t).start.offset ↔ s.start.offset ≤ t.start.offset)
    (p : Program) (options : CheckOptions) :
    ((p.relocate g g).check options).map Diagnostic.erase =
      (p.check options).map Diagnostic.erase := by
  -- starts keep their order, so that the findings are sorted alike
  have hdecls : (p.relocate g g).declFindings.map Diagnostic.erase =
      p.declFindings.map Diagnostic.erase := by
    rw [declFindings, map_diagnostic_declErrors_relocate, Diagnostic.sortByStart_relocate g hg]
    exact Diagnostic.map_erase_map_relocate g _
  rw [check, check, List.map_append, List.map_append, hdecls, matchExprs_relocate,
    signature_relocate, List.flatMap_map, List.map_flatMap, List.map_flatMap]
  refine congrArg _ (List.flatMap_congr fun m _ => ?_)
  exact m.erase_check_relocate g p.signature options hg

end Program

/-! ### Layout -/

namespace Source

/-- Without its places, the program of a source is that of its forms. -/
theorem erase_program (source : Source) :
    source.program.1.erase = (Program.ofForms source.forms).1.erase := by
  obtain ⟨g, -, hprogram, -⟩ := source.exists_program_eq
  rw [hprogram, Program.erase_relocate]

/-- Without their spans, the findings about a source are those about its forms. -/
theorem erase_check (source : Source) (options : CheckOptions) :
    (source.check options).map Diagnostic.erase =
      (Program.ofForms source.forms).2.map SyntaxError.erase ++
        ((Program.ofForms source.forms).1.check options).map Diagnostic.erase := by
  -- the program of a source is that of its forms, put where the source has them
  obtain ⟨g, hg, hprogram, herrors⟩ := source.exists_program_eq
  have hcheck : (source.program.1.check options).map Diagnostic.erase =
      ((Program.ofForms source.forms).1.check options).map Diagnostic.erase := by
    rw [hprogram]
    exact Program.erase_check_relocate g hg.start_le _ options
  rw [← herrors, ← hcheck, check, List.map_append, List.map_map]
  rfl

/-- **Layout changes nothing.** If the tokens of two sources agree without their trivia in kind and
text, and each is followed by a line end before the next one, or before the end, in both sources or
in none, then the programs of the sources are the same up to spans, and so are the findings about
them, one by one. -/
theorem check_eq_of_forms_eq {a b : Source}
    (h : a.leaves.map Leaf.form = b.leaves.map Leaf.form) (options : CheckOptions) :
    a.program.1.erase = b.program.1.erase ∧
      (a.check options).map Diagnostic.erase = (b.check options).map Diagnostic.erase := by
  have hforms : a.forms = b.forms := h
  rw [a.erase_program, b.erase_program, a.erase_check, b.erase_check, hforms]
  exact ⟨rfl, rfl⟩

/-- A declaration whose constructors stand on lines of their own, and a match with a missing case
and an arm that can never be reached. -/
def plainLights : Source :=
  .ofString "plain.pmxc"
    "enum Light \x7b On\nOff \x7d\nmatch On \x7b On => \x7b\x7d, On => \x7b\x7d \x7d"

/-- The same with comments, other blanks and other line ends. -/
def spacedLights : Source :=
  .ofString "spaced.pmxc" <|
    "\n// lights\nenum   Light\x7bOn // first\r\n\r\n   Off\x7d\r  \nmatch\tOn\x7b"
      ++ "On=>\x7b\x7d,On=>\x7b\x7d\x7d // done"

/-- Both layouts have the same two findings, up to places. -/
theorem lights_checked_alike :
    plainLights.leaves.map Leaf.form = spacedLights.leaves.map Leaf.form ∧
      (plainLights.check ⟨.warn, 3⟩).length = 2 ∧
      plainLights.program.1.erase = spacedLights.program.1.erase ∧
      (plainLights.check ⟨.warn, 3⟩).map Diagnostic.erase =
        (spacedLights.check ⟨.warn, 3⟩).map Diagnostic.erase := by
  have hforms : plainLights.leaves.map Leaf.form = spacedLights.leaves.map Leaf.form := by
    decide +kernel
  have hlength : (plainLights.check ⟨.warn, 3⟩).length = 2 := by decide +kernel
  exact ⟨hforms, hlength, check_eq_of_forms_eq hforms ⟨.warn, 3⟩⟩

end Source

end MatchCheck
