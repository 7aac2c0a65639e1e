import MatchCheck.Proofs.Check.Order
import MatchCheck.Proofs.Diagnostic.Codes
import MatchCheck.Proofs.Program.Errors
import MatchCheck.Proofs.Signature.Declared

/-!
# The order of a report

The findings about a source come in blocks: those about its syntax, those about its declarations,
and then one block for each match (`Source.report_in_blocks`). Which block a finding stands in can
be told from its code, and inside a block each finding begins behind the one before it.

For a match this rests on its arms. Each of them is reported once at most, either because it does
not fit the type or because it can never be reached, and always inside itself. So no two findings
about a match begin at one offset, and sorting puts them into the one order that is left
(`MatchExpr.ascending_reportedMisfits`). Only the missing cases stand aside: they are reported last,
at the keyword.
-/

namespace MatchCheck

variable {source : Source}

/-! ### Arms are reported once -/

theorem Shape.unreachableFrom_sublist {α : Type} (sig : Signature) (ty : TypeDef)
    (earlier : List Shape) (rows : List (α × Shape)) :
    (unreachableFrom sig ty earlier rows).Sublist rows := by
  -- row by row: each is reported or passed over
  fun_induction unreachableFrom sig ty earlier rows with
  | case1 => exact List.Sublist.slnil
  | case2 earlier a s rest later _ ih => exact ih.cons _
  | case3 earlier a s rest later _ ih => exact ih.cons_cons _

/-- A warning is about an arm whose pattern resolves. -/
theorem unreachableArm_of_mem {sig : Signature} {ty : TypeDef} {arms : List Arm} {d : Diagnostic}
    (hd : d ∈ unreachableArms sig ⟨ty, sig.resolvedArms ty arms⟩) :
    ∃ arm ∈ arms, ∃ s, sig.resolve ty arm.pattern = .ok s ∧ d = unreachableArm arm s := by
  obtain ⟨⟨arm, s⟩, hrow, rfl⟩ := List.mem_map.mp hd
  have hresolved := (Shape.unreachableFrom_sublist sig ty [] _).subset hrow
  obtain ⟨harm, hs⟩ := Signature.mem_resolvedArms_iff.mp hresolved
  exact ⟨arm, harm, s, hs, rfl⟩

/-- Findings about unreachable arms are related if those about an earlier and a later arm are. -/
theorem pairwise_unreachableArms {R : Diagnostic → Diagnostic → Prop} {sig : Signature}
    {ty : TypeDef} {arms : List Arm}
    (h : arms.Pairwise fun a b => ∀ s t, R (unreachableArm a s) (unreachableArm b t)) :
    (unreachableArms sig ⟨ty, sig.resolvedArms ty arms⟩).Pairwise R := by
  refine List.pairwise_map.mpr (List.Pairwise.sublist (Shape.unreachableFrom_sublist ..) ?_)
  refine List.pairwise_filterMap.mpr (h.imp fun hab row hrow row' hrow' => ?_)
  obtain ⟨s, -, rfl⟩ := Option.map_eq_some_iff.mp hrow
  obtain ⟨t, -, rfl⟩ := Option.map_eq_some_iff.mp hrow'
  exact hab s t

namespace MatchExpr

variable {sig : Signature} {m : MatchExpr}

/-- What lies inside different arms begins at different offsets. -/
theorem start_ne_of_arms (hsound : m.layout.Sound source) {a b : Arm} (ha : a ∈ m.arms)
    (hb : b ∈ m.arms) (hne : a ≠ b) {s t : Span} (hs : a.span.Contains s) (ht : b.span.Contains t)
    (hs' : s.Proper) (ht' : t.Proper) : s.start.offset ≠ t.start.offset := by
  -- which of the two arms stands in front is not known
  let apart (a b : Arm) : Prop := a.span.Before b.span ∨ b.span.Before a.span
  have hsymm : Std.Symm apart := ⟨fun _ _ => Or.symm⟩
  have hapart : m.arms.Pairwise apart := (ordered_parts hsound).2.1.imp Or.inl
  rcases hapart.forall ha hb hne with hab | hba
  · exact Nat.ne_of_lt ((hab.inside hs ht).start_lt hs')
  · exact Nat.ne_of_gt ((hba.inside ht hs).start_lt ht')

/-- All misfits are at spans of the match. -/
theorem forall_span_misfits {G : Span → Prop} (h : m.layout.All G) (options : CheckOptions) :
    ∀ d ∈ m.misfits sig options, G d.span := by
  refine List.forall_mem_append.mpr ⟨List.forall_mem_map.mpr (forall_span_errors h), ?_⟩
  unfold Signature.resolveMatch
  -- besides the errors there are only the patterns of unreachable arms, if these are asked for
  cases options.redundantArms with
  | allow => simp
  | warn =>
    cases sig.scrutinee m.scrutinee with
    | error e => simp
    | ok found =>
      intro d hd
      obtain ⟨arm, harm, s, -, rfl⟩ := unreachableArm_of_mem hd
      have hspan := (Arm.all_pattern ((all_parts h).2 arm harm)).span
      rwa [Pattern.span_layout] at hspan

/-- No two misfits of a match begin at one offset. -/
theorem nodup_starts_misfits (hsound : m.layout.Sound source) (hproper : m.layout.All Span.Proper)
    (sig : Signature) (options : CheckOptions) :
    (m.misfits sig options).Pairwise fun d e => d.span.start.offset ≠ e.span.start.offset := by
  -- errors alone ascend; what is left is to compare warnings with each other and with errors
  have herrors : ((sig.resolveMatch m).2.map MatchError.diagnostic).Pairwise
      fun d e => d.span.start.offset ≠ e.span.start.offset :=
    (ascending_errors hsound hproper).imp Nat.ne_of_lt
  have hproperErrors : ∀ e ∈ (sig.resolveMatch m).2, e.diagnostic.span.Proper :=
    forall_span_errors hproper
  obtain ⟨hbehind, harms, hscrutinee, hinside⟩ := ordered_parts hsound
  have hpattern : ∀ arm ∈ m.arms, arm.span.Contains arm.pattern.span ∧ arm.pattern.span.Proper := by
    intro arm harm
    rw [← Pattern.span_layout]
    exact ⟨(hinside arm harm).span, (Arm.all_pattern ((all_parts hproper).2 arm harm)).span⟩
  unfold misfits
  unfold Signature.resolveMatch at herrors hproperErrors ⊢
  cases options.redundantArms with
  | allow => exact List.pairwise_append.mpr ⟨herrors, List.Pairwise.nil, by simp⟩
  | warn =>
    cases hfound : sig.scrutinee m.scrutinee with
    | error e => exact List.pairwise_singleton _ _
    | ok found =>
      obtain ⟨ty, c⟩ := found
      simp only [hfound] at herrors hproperErrors
      refine List.pairwise_append.mpr ⟨herrors, ?_, ?_⟩
      · -- two warnings are inside different arms, one behind the other
        refine pairwise_unreachableArms (harms.imp_of_mem fun ha hb hab _ _ => ?_)
        have hinside := hab.inside (hpattern _ ha).1 (hpattern _ hb).1
        exact Nat.ne_of_lt (hinside.start_lt (hpattern _ ha).2)
      · intro d hd w hw
        obtain ⟨e, he, rfl⟩ := List.mem_map.mp hd
        obtain ⟨b, hb, s, hs, rfl⟩ := unreachableArm_of_mem hw
        obtain ⟨hinb, hpropb⟩ := hpattern b hb
        rcases List.mem_append.mp he with harg | harm
        · -- an error of the expression stands in front of all arms
          have hin := Signature.forall_span_argumentError? hscrutinee (Option.mem_toList.mp harg)
          exact Nat.ne_of_lt (((hbehind b hb).inside hin hinb).start_lt (hproperErrors e he))
        · -- an arm that fits is another than one that does not
          obtain ⟨a, ha, ha'⟩ := Signature.mem_armErrors_iff.mp harm
          have hne : a ≠ b := by
            rintro rfl
            rw [hs] at ha'
            cases ha'
          exact start_ne_of_arms hsound ha hb hne (Signature.forall_span_resolve (hinside a ha) ha')
            hinb (hproperErrors e he) hpropb

/-- The misfits of a match as they are reported. -/
def reportedMisfits (sig : Signature) (options : CheckOptions) (m : MatchExpr) : List Diagnostic :=
  match options.redundantArms with
  | .allow => m.misfits sig options
  | .warn => Diagnostic.sortByStart (m.misfits sig options)

theorem mem_reportedMisfits_iff {options : CheckOptions} {d : Diagnostic} :
    d ∈ m.reportedMisfits sig options ↔ d ∈ m.misfits sig options := by
  unfold reportedMisfits
  cases options.redundantArms with
  | allow => exact Iff.rfl
  | warn => exact Diagnostic.mem_sortByStart

/-- **Misfits are reported from front to back.** Each begins behind all that are reported before
it. -/
theorem ascending_reportedMisfits (hsound : m.layout.Sound source)
    (hproper : m.layout.All Span.Proper) (options : CheckOptions) :
    (m.reportedMisfits sig options).Pairwise Diagnostic.StartsLT := by
  have hne := nodup_starts_misfits hsound hproper sig options
  unfold reportedMisfits
  cases hoptions : options.redundantArms with
  | allow =>
    simp only [misfits, hoptions, List.append_nil]
    exact ascending_errors hsound hproper
  | warn =>
    -- sorting makes the starts ascend, and no two of them are the same
    refine Diagnostic.pairwise_lt_of_nodup (Diagnostic.pairwise_sortByStart _) ?_
    rw [((Diagnostic.sortByStart_perm _).map _).nodup_iff]
    exact List.pairwise_map.mpr hne

/-- Missing cases are reported at the keyword. -/
theorem span_missingFinding {options : CheckOptions} {d : Diagnostic}
    (hd : d ∈ m.missingFinding sig options) :
    d.span = m.keywordSpan ∧ d.code = Code.nonExhaustiveMatch.text := by
  obtain ⟨ty, missing, rfl⟩ := exists_of_mem_missingFinding hd
  exact ⟨rfl, rfl⟩

end MatchExpr

/-! ### Which block a code belongs to -/

/-- The codes of wrong declarations. -/
def Code.ofDeclarations : List Code :=
  [duplicateConstructor, duplicateType, unknownType]

namespace Diagnostic

/-- Whether a finding is about the syntax. -/
def isSyntactic (d : Diagnostic) : Bool :=
  Run.isSyntaxCode d.code

/-- Whether a finding is about a declaration. -/
def isDeclarative (d : Diagnostic) : Bool :=
  d.code ∈ Code.ofDeclarations.map Code.text

theorem isDeclarative_eq {d : Diagnostic} {c : Code} (h : d.code = c.text) :
    d.isDeclarative = decide (c ∈ Code.ofDeclarations) := by
  rw [isDeclarative, h]
  exact decide_eq_decide.mpr (List.mem_map_of_injective fun _ _ => Code.text_inj.mp)

end Diagnostic

theorem SyntaxError.isDeclarative_diagnostic (e : SyntaxError) :
    e.diagnostic.isDeclarative = false := by
  have hnone : ∀ c ∈ Code.ofDeclarations, c.isSyntax = false := by decide
  rw [Diagnostic.isDeclarative_eq e.code_diagnostic]
  exact decide_eq_false fun hmem => e.code_ne (hnone _ hmem) rfl

theorem DeclError.isDeclarative_diagnostic (e : DeclError) :
    e.diagnostic.isDeclarative = true := by
  rw [Diagnostic.isDeclarative_eq e.code_diagnostic]
  cases e <;> simp [code, Code.ofDeclarations]

namespace MatchExpr

variable {sig : Signature} {m : MatchExpr} {options : CheckOptions} {d : Diagnostic}

/-- No misfit is reported under the code of missing cases. -/
theorem code_misfits_ne (hd : d ∈ m.misfits sig options) :
    d.code ≠ Code.nonExhaustiveMatch.text := by
  rcases List.mem_append.mp hd with hd | hd
  · obtain ⟨e, -, rfl⟩ := List.mem_map.mp hd
    rw [e.code_diagnostic, Ne, Code.text_inj]
    cases e <;> simp [MatchError.code]
  · -- a warning, if warnings are asked for
    split at hd
    · obtain ⟨row, -, rfl⟩ := List.mem_map.mp hd
      have hne : Code.unreachableArm.text ≠ Code.nonExhaustiveMatch.text := by
        simp [Code.text_inj]
      exact hne
    · cases hd

/-- No finding about a match is about a declaration. -/
theorem isDeclarative_of_mem_check (hd : d ∈ m.check sig options) : d.isDeclarative = false := by
  have hnone : ∀ c ∈ Code.ofMatches, c ∉ Code.ofDeclarations := by decide
  obtain ⟨c, hc, hcode⟩ := exists_code_of_mem_check hd
  rw [Diagnostic.isDeclarative_eq hcode]
  exact decide_eq_false (hnone c hc)

end MatchExpr

/-! ### The report of a source -/

/-- **The findings about one match** lie inside it. They begin one behind the other, except that
missing cases are reported last. -/
structure MatchExpr.Block (m : MatchExpr) (ds : List Diagnostic) : Prop where
  inside : ∀ d ∈ ds, m.span.Contains d.span
  missing_last : ∃ (misfits : List Diagnostic) (missing? : Option Diagnostic),
    ds = misfits ++ missing?.toList ∧
      misfits.Pairwise Diagnostic.StartsLT ∧
      (∀ d ∈ misfits, d.code ≠ Code.nonExhaustiveMatch.text) ∧
      ∀ d ∈ missing?, d.code = Code.nonExhaustiveMatch.text

/-- The findings about a match make up its block. -/
theorem MatchExpr.block_check {m : MatchExpr} (hsound : m.layout.Sound source)
    (hproper : m.layout.All Span.Proper) (sig : Signature) (options : CheckOptions) :
    m.Block (m.check sig options) where
  inside := by
    have hall : m.layout.All m.span.Contains := hsound.all_inside
    -- what is missing is reported at the keyword, a part of the match like any other
    have hkeyword : m.span.Contains m.keywordSpan := by
      cases hall with
      | piece _ hparts => exact (hparts _ List.mem_cons_self).span
    intro d hd
    rw [check_eq] at hd
    rcases List.mem_append.mp hd with hd | hd
    · exact forall_span_misfits hall options d (mem_reportedMisfits_iff.mp hd)
    · rwa [(span_missingFinding (Option.mem_toList.mp hd)).1]
  missing_last := by
    refine ⟨m.reportedMisfits sig options, m.missingFinding sig options, m.check_eq sig options,
      ascending_reportedMisfits hsound hproper options,
      fun d hd => code_misfits_ne (mem_reportedMisfits_iff.mp hd),
      fun _ hd => (span_missingFinding hd).2⟩

/-- The matches of a source stand one behind the other. -/
theorem Source.ordered_matchExprs (source : Source) :
    source.program.1.matchExprs.Pairwise fun m n => m.span.Before n.span := by
  obtain ⟨hi, hrow⟩ := source.row_program.1
  refine List.pairwise_filterMap.mpr ((List.pairwise_map.mp hrow.ordered).imp ?_)
  intro item item' hbefore m hm n hn
  -- of two items only two matches are compared
  cases item with
  | enumDecl _ => cases hm
  | matchExpr _ =>
    cases item' with
    | enumDecl _ => cases hn
    | matchExpr _ =>
      cases hm
      cases hn
      exact hbefore

/-- **A report in blocks**: what it says about the syntax, about the declarations, and about one
match after the other. -/
structure Source.InBlocks (source : Source) (report : List Diagnostic)
    (syntactic declarative : List Diagnostic) (blocks : List (List Diagnostic)) : Prop where
  report_eq : report = syntactic ++ declarative ++ blocks.flatten
  /-- The first block is all there is about the syntax, from front to back. -/
  syntactic_eq : syntactic = report.filter (·.isSyntactic)
  syntactic_ascending : syntactic.Pairwise Diagnostic.StartsLT
  /-- One finding at most is at the end of the text, and an unexpected end is reported there. -/
  at_end : (syntactic.map (·.span.start.offset)).count (Text.byteLength source.text) ≤ 1
  unexpected_end : ∀ d ∈ syntactic, d.code = Code.unexpectedEnd.text →
    d.span.start.offset = Text.byteLength source.text
  /-- The second block is all there is about declarations, from front to back. -/
  declarative_eq : declarative = report.filter (·.isDeclarative)
  declarative_ascending : declarative.Pairwise Diagnostic.StartsLT
  /-- The other blocks are about the matches of the source, one behind the other. -/
  matches_ordered : source.program.1.matchExprs.Pairwise fun m n => m.span.Before n.span
  match_blocks : List.Forall₂ MatchExpr.Block source.program.1.matchExprs blocks

/-- **Every report comes in blocks**, whatever the source and the options are. -/
theorem Source.report_in_blocks (source : Source) (options : CheckOptions) :
    ∃ syntactic declarative blocks,
      source.InBlocks (source.check options) syntactic declarative blocks := by
  let program := source.program.1
  have hreport : source.check options = source.program.2.map SyntaxError.diagnostic ++
      program.declFindings ++
        (program.matchExprs.map (·.check program.signature options)).flatten := by
    rw [← List.flatMap_def, List.append_assoc]
    rfl
  -- the kinds of the three parts
  have herrors : ∀ d ∈ source.program.2.map SyntaxError.diagnostic,
      d.isSyntactic = true ∧ d.isDeclarative = false :=
    List.forall_mem_map.mpr fun e _ => ⟨e.isSyntaxCode_diagnostic, e.isDeclarative_diagnostic⟩
  have hdecls : ∀ d ∈ program.declFindings, d.isSyntactic = false ∧ d.isDeclarative = true := by
    intro d hd
    obtain ⟨e, -, rfl⟩ := List.mem_map.mp (Diagnostic.mem_sortByStart.mp hd)
    exact ⟨e.isSyntaxCode_diagnostic, e.isDeclarative_diagnostic⟩
  have hmatches : ∀ d ∈ (program.matchExprs.map (·.check program.signature options)).flatten,
      d.isSyntactic = false ∧ d.isDeclarative = false := by
    intro d hd
    obtain ⟨m, -, hd⟩ := List.mem_flatMap.mp (List.flatMap_def ▸ hd)
    exact ⟨m.isSyntaxCode_of_mem_check hd, m.isDeclarative_of_mem_check hd⟩
  obtain ⟨hascending, hatEnd⟩ := source.ascending_errors
  refine ⟨_, _, _, {
    report_eq := hreport
    syntactic_eq := ?_
    syntactic_ascending := hascending
    at_end := ?_
    unexpected_end := List.forall_mem_map.mpr hatEnd
    declarative_eq := ?_
    declarative_ascending := Program.ascending_declFindings source.ascending_names
    matches_ordered := source.ordered_matchExprs
    match_blocks := ?_ }⟩
  · rw [hreport, List.filter_append, List.filter_append,
      List.filter_eq_self.mpr fun d hd => (herrors d hd).1,
      List.filter_eq_nil_iff.mpr fun d hd => by simp [(hdecls d hd).1],
      List.filter_eq_nil_iff.mpr fun d hd => by simp [(hmatches d hd).1], List.append_nil,
      List.append_nil]
  · exact List.nodup_iff_count_le_one.mp (List.pairwise_map.mpr (hascending.imp Nat.ne_of_lt)) _
  · rw [hreport, List.filter_append, List.filter_append,
      List.filter_eq_nil_iff.mpr fun d hd => by simp [(herrors d hd).2],
      List.filter_eq_self.mpr fun d hd => (hdecls d hd).2,
      List.filter_eq_nil_iff.mpr fun d hd => by simp [(hmatches d hd).2], List.append_nil,
      List.nil_append]
  · refine List.forall₂_map_right_iff.mpr (List.forall₂_same.mpr fun m hm => ?_)
    obtain ⟨hsound, hproper⟩ := source.sound_matchExprs m hm
    exact m.block_check hsound hproper program.signature options

end MatchCheck
