import MatchCheck.Check.Basic
import MatchCheck.Proofs.Coverage.Missing
import MatchCheck.Proofs.Value.Resolution

/-!
# A source without errors has no match that gets stuck

If the check of a source reports no error, then in every match that was read the matched
expression is a value of exactly one declared type, and every value of this type, so also
the matched one, is accepted by the pattern of some arm as it is written.

The parts are proved elsewhere: resolution keeps the meaning of what is written, and where
nothing is missing every value is held by some shape. What is left is to see that silence
means what it should. Every finding about declarations, about a misfit and about missing
cases is an error, and each is in the report whatever the options are. Hence without errors
all fields have declared types (`Program.signature_closed`), the matched expression has a
type and fits it, and nothing is missing (`MatchExpr.exists_resolved_of_no_error`).
-/

namespace MatchCheck

/-! ### Findings that are errors -/

theorem DeclError.severity_diagnostic (e : DeclError) : e.diagnostic.severity = .error := by
  cases e <;> rfl

theorem MatchError.severity_diagnostic (e : MatchError) : e.diagnostic.severity = .error := by
  cases e <;> rfl

theorem severity_nonExhaustive (m : MatchExpr) (ty : TypeDef) (missing : List Shape) (n : Nat) :
    (nonExhaustive m ty missing n).severity = .error := rfl

/-! ### Declarations -/

/-- **Without wrong declarations every field has a declared type.** -/
theorem Program.signature_closed {p : Program} (h : p.declErrors = []) : p.signature.Closed := by
  intro ty hty c hc hsome
  obtain ⟨d, hd, rfl⟩ := Program.exists_enumDecl_of_mem_types hty
  obtain ⟨cd, hcd, rfl⟩ := EnumDecl.exists_ctorDecl_of_mem_ctors hc
  cases hfield : cd.field with
  | none =>
    have hnone : cd.define.field = none := by
      change cd.field.map (·.name) = none
      rw [hfield]
      rfl
    rw [hnone] at hsome
    exact absurd hsome (by simp)
  | some ident =>
    have hdefine : cd.define.field = some ident.name := by
      change cd.field.map (·.name) = some ident.name
      rw [hfield]
      rfl
    rw [Signature.fieldType?_of_field hdefine, ← Option.isSome_iff_exists]
    by_contra hnone
    -- an undeclared field type would have been reported
    have hwritten : ident ∈ p.writtenFields :=
      List.mem_flatMap.mpr ⟨d, hd, List.mem_filterMap.mpr ⟨cd, hcd, hfield⟩⟩
    have herror : DeclError.unknownType ident ∈ p.declErrors := by
      refine List.mem_append_right _ (List.mem_map.mpr ⟨ident, List.mem_filter.mpr ?_, rfl⟩)
      exact ⟨hwritten, by simpa using hnone⟩
    rw [h] at herror
    exact absurd herror List.not_mem_nil

theorem Program.diagnostic_mem_declFindings {p : Program} {e : DeclError}
    (h : e ∈ p.declErrors) : e.diagnostic ∈ p.declFindings :=
  List.mem_mergeSort.mpr (List.mem_map_of_mem h)

/-! ### Matches -/

section Match

variable {sig : Signature} {options : CheckOptions} {m : MatchExpr} {r : ResolvedMatch}

/-- Every misfit is reported, with warnings or without. -/
theorem MatchExpr.diagnostic_mem_check {e : MatchError} (h : e ∈ (sig.resolveMatch m).2) :
    e.diagnostic ∈ m.check sig options := by
  have hmem : e.diagnostic ∈ (sig.resolveMatch m).2.map MatchError.diagnostic :=
    List.mem_map_of_mem h
  -- warnings are merged into the misfits or left out, and missing cases are put behind
  simp only [MatchExpr.check]
  split
  · exact hmem
  · refine List.mem_append_left _ ?_
    split
    · exact hmem
    · exact List.mem_mergeSort.mpr (List.mem_append_left _ hmem)

/-- Missing cases are reported, however many of them are listed. -/
theorem MatchExpr.nonExhaustive_mem_check (hr : (sig.resolveMatch m).1 = some r)
    (hne : Shape.missing sig r.type r.shapes ≠ []) :
    nonExhaustive m r.type (Shape.missing sig r.type r.shapes) options.maxWitnesses ∈
      m.check sig options := by
  -- something is missing, so it is reported
  have hcases : missingCases sig options m r =
      some (nonExhaustive m r.type (Shape.missing sig r.type r.shapes) options.maxWitnesses) := by
    unfold missingCases
    split
    · next hnil => exact absurd hnil hne
    · rfl
  simp only [MatchExpr.check, hr, hcases]
  exact List.mem_append_right _ (List.mem_singleton.mpr rfl)

/-- **A match without errors.** Its expression has a type and fits it, and no case is missing. -/
theorem MatchExpr.exists_resolved_of_no_error
    (h : ∀ d ∈ m.check sig options, d.severity ≠ .error) :
    ∃ ty c, sig.scrutinee m.scrutinee = .ok (ty, c) ∧
      sig.argumentError? c m.scrutinee = none ∧
      Shape.missing sig ty ((sig.resolvedArms ty m.arms).map (·.2)) = [] := by
  -- misfits and missing cases are reported as errors, so there are none of either
  have hnone : (sig.resolveMatch m).2 = [] := by
    rw [List.eq_nil_iff_forall_not_mem]
    intro e he
    exact h _ (MatchExpr.diagnostic_mem_check he) e.severity_diagnostic
  have hmissing : ∀ r, (sig.resolveMatch m).1 = some r →
      Shape.missing sig r.type r.shapes = [] := by
    intro r hr
    by_contra hne
    exact h _ (MatchExpr.nonExhaustive_mem_check hr hne) (severity_nonExhaustive _ _ _ _)
  unfold Signature.resolveMatch at hnone hmissing
  cases hscrutinee : sig.scrutinee m.scrutinee with
  | error e =>
    rw [hscrutinee] at hnone
    exact absurd hnone (by simp)
  | ok found =>
    obtain ⟨ty, c⟩ := found
    rw [hscrutinee] at hnone hmissing
    have hargs : (sig.argumentError? c m.scrutinee).toList = [] :=
      (List.append_eq_nil_iff.mp hnone).1
    exact ⟨ty, c, rfl, Option.toList_eq_nil_iff.mp hargs, hmissing _ rfl⟩

/-- Where nothing is missing, some arm accepts each value as the arm is written. -/
theorem MatchExpr.exists_arm_accepts {ty : TypeDef} {v : Value} (hsig : sig.Distinct)
    (hclosed : sig.Closed) (hty : ty ∈ sig.types)
    (hmissing : Shape.missing sig ty ((sig.resolvedArms ty m.arms).map (·.2)) = [])
    (hv : v.HasType sig ty) : ∃ arm ∈ m.arms, arm.pattern.accepts v = true := by
  -- every shape that takes part comes from the written pattern of an arm
  have hresolved : ∀ s ∈ (sig.resolvedArms ty m.arms).map (·.2),
      ∃ arm ∈ m.arms, sig.resolve ty arm.pattern = .ok s := by
    intro s hs
    obtain ⟨⟨arm, s'⟩, hmem, rfl⟩ := List.mem_map.mp hs
    obtain ⟨arm', harm, heq⟩ := List.mem_filterMap.mp hmem
    obtain ⟨s'', hs'', hpair⟩ := Option.map_eq_some_iff.mp heq
    obtain ⟨rfl, rfl⟩ := Prod.mk.inj hpair
    refine ⟨arm', harm, ?_⟩
    cases hresolve : sig.resolve ty arm'.pattern with
    | error e =>
      rw [hresolve] at hs''
      exact absurd hs'' (by simp [Except.toOption])
    | ok s =>
      rw [hresolve] at hs''
      rw [Option.some.inj hs'']
  have hfits : ∀ s ∈ (sig.resolvedArms ty m.arms).map (·.2), s.Fits sig ty := by
    intro s hs
    obtain ⟨arm, -, hresolve⟩ := hresolved s hs
    exact Signature.fits_of_hasShape (Signature.hasShape_of_resolve hresolve)
  obtain ⟨s, hs, hholds⟩ :=
    List.any_eq_true.mp (Shape.any_holds_of_missing_eq_nil hsig hv hty hfits hmissing)
  obtain ⟨arm, harm, hresolve⟩ := hresolved s hs
  have haccepts : arm.pattern.accepts v = s.holds v :=
    Signature.accepts_eq_holds hclosed hty (Signature.hasShape_of_resolve hresolve) v
  exact ⟨arm, harm, haccepts.trans hholds⟩

end Match

/-! ### Soundness of the check -/

/-- **No match gets stuck.** Let the check of a source report no error, with any options. Then for
every match that was read there is a declared type to which its expression resolves, the expression
is a value of this type and of no other, and every value of the type, among them the expression
itself, is accepted by the written pattern of some arm. -/
theorem no_stuck_match_of_no_error (source : Source) (options : CheckOptions)
    (h : ∀ d ∈ source.check options, d.severity ≠ .error) :
    ∀ m ∈ source.program.1.matchExprs,
      ∃ ty ∈ source.program.1.signature.types,
        (∃ c, source.program.1.signature.scrutinee m.scrutinee = .ok (ty, c)) ∧
        (∀ t ∈ source.program.1.signature.types,
          m.scrutinee.value.HasType source.program.1.signature t ↔ t = ty) ∧
        (∀ v : Value, v.HasType source.program.1.signature ty →
          ∃ arm ∈ m.arms, arm.pattern.accepts v = true) ∧
        ∃ arm ∈ m.arms, arm.pattern.accepts m.scrutinee.value = true := by
  intro m hm
  -- syntax errors come first in the report; what follows is about the program alone
  have hcheck : ∀ d ∈ source.program.1.check options, d.severity ≠ .error :=
    fun d hd => h d (List.mem_append_right _ hd)
  generalize source.program.1 = p at hm hcheck
  have hsig : p.signature.Distinct := p.signature_distinct
  have hclosed : p.signature.Closed := by
    refine Program.signature_closed (List.eq_nil_iff_forall_not_mem.mpr fun e he => ?_)
    exact hcheck _ (List.mem_append_left _ (Program.diagnostic_mem_declFindings he))
      e.severity_diagnostic
  have hmatch : ∀ d ∈ m.check p.signature options, d.severity ≠ .error :=
    fun d hd => hcheck d (List.mem_append_right _ (List.mem_flatMap.mpr ⟨m, hm, hd⟩))
  obtain ⟨ty, c, hscrutinee, hargs, hmissing⟩ := MatchExpr.exists_resolved_of_no_error hmatch
  obtain ⟨hty, hc, hname⟩ := Signature.mem_of_scrutinee hscrutinee
  have hvalue : m.scrutinee.value.HasType p.signature ty :=
    Signature.hasType_of_argumentError? hclosed hty hc hname hargs
  have hcovered : ∀ v : Value, v.HasType p.signature ty →
      ∃ arm ∈ m.arms, arm.pattern.accepts v = true :=
    fun v hv => MatchExpr.exists_arm_accepts hsig hclosed hty hmissing hv
  refine ⟨ty, hty, ⟨c, hscrutinee⟩, fun t ht => ⟨fun hv => ?_, ?_⟩, hcovered, hcovered _ hvalue⟩
  · exact Signature.eq_of_hasType_value hscrutinee ht hv
  · rintro rfl
    exact hvalue

/-- A source with a match over a type that refers to itself, two levels deep. -/
def successors : Source :=
  .ofString "nat.pmxc" <|
    "enum Nat \x7b Zero, Succ(Nat) \x7d\n" ++
    "match Succ(Zero) \x7b Zero => \x7b\x7d Succ(Succ(_)) => \x7b\x7d Succ(Zero) => \x7b\x7d \x7d\n"

/-- The check of this source is silent, it holds one match, and the match covers all values of its
type. -/
theorem successors_never_stuck :
    successors.check .default = [] ∧ successors.program.1.matchExprs.length = 1 ∧
      ∀ m ∈ successors.program.1.matchExprs, ∃ ty ∈ successors.program.1.signature.types,
        m.scrutinee.value.HasType successors.program.1.signature ty ∧
        ∀ v : Value, v.HasType successors.program.1.signature ty →
          ∃ arm ∈ m.arms, arm.pattern.accepts v = true := by
  have heval : successors.check .default = [] ∧ successors.program.1.matchExprs.length = 1 := by
    decide +kernel
  obtain ⟨hsilent, hlength⟩ := heval
  refine ⟨hsilent, hlength, fun m hm => ?_⟩
  have herror : ∀ d ∈ successors.check .default, d.severity ≠ .error := by
    rw [hsilent]
    exact fun d hd => absurd hd List.not_mem_nil
  obtain ⟨ty, hty, -, honly, hcovered, -⟩ :=
    no_stuck_match_of_no_error successors .default herror m hm
  exact ⟨ty, hty, (honly ty hty).mpr rfl, hcovered⟩

end MatchCheck
