import MatchCheck.Proofs.Check.Genuine

/-!
# The name of a source

A source is read and checked without regard to its name, which is only put into spans. So under
another name the same text has the same findings in the same order, with the other name in all their
spans (`Source.check_renamed`). And no span has any other name (`Source.file_of_mem_spans`).
-/

namespace MatchCheck

/-! ### Exact places of findings -/

section Relocated

variable {g : Span → Span} (hfront : ∀ s, g s.shrinkToStart = (g s).shrinkToStart)
include hfront

/-- A finding about missing cases is put where the spans of its match are put. -/
theorem nonExhaustive_relocate (m : MatchExpr) (ty : TypeDef) (missing : List Shape) (n : Nat) :
    nonExhaustive (m.relocate g g) (ty.move g) missing n =
      (nonExhaustive m ty missing n).relocate g := by
  have hscrutinee : (m.scrutinee.relocate g g).span = g m.scrutinee.span := by
    cases m.scrutinee
    rfl
  simp [nonExhaustive, Diagnostic.relocate, Diagnostic.error, Diagnostic.addNote,
    Diagnostic.addSuggestion, Note.relocate, Suggestion.relocate, Edit.relocate, MatchExpr.relocate,
    hfront, hscrutinee]

/-- What is missing is reported at spans of the match, and where the arms are to be added. -/
theorem MatchExpr.missingFinding_relocate (sig : Signature) (options : CheckOptions)
    (m : MatchExpr) :
    (m.relocate g g).missingFinding (sig.move g) options =
      (m.missingFinding sig options).map (Diagnostic.relocate g) := by
  simp only [missingFinding, sig.resolveMatch_relocate]
  cases (sig.resolveMatch m).1 with
  | none => rfl
  | some r =>
    have hshapes : (r.arms.map (Prod.map (Arm.relocate g g) id)).map (·.2) = r.shapes := by
      rw [List.map_map]
      rfl
    simp only [Option.map_some, Option.bind_some, missingCases, ResolvedMatch.shapes] at hshapes ⊢
    -- the shapes are the same and so are the missing cases; only their finding is moved
    rw [hshapes, Shape.missing_move]
    cases Shape.missing sig r.type (r.arms.map (·.2)) with
    | nil => rfl
    | cons s ss => exact congrArg some (nonExhaustive_relocate hfront m r.type (s :: ss) _)

variable (hg : ∀ s t, (g s).start.offset ≤ (g t).start.offset ↔ s.start.offset ≤ t.start.offset)
include hg

/-- **The findings about a relocated match** are relocated. -/
theorem MatchExpr.check_relocate (sig : Signature) (options : CheckOptions) (m : MatchExpr) :
    (m.relocate g g).check (sig.move g) options =
      (m.check sig options).map (Diagnostic.relocate g) := by
  rw [check_eq, check_eq, misfits_relocate, missingFinding_relocate hfront, List.map_append,
    Option.toList_map]
  refine congrArg (· ++ _) ?_
  -- warnings are sorted in among the errors, by starts that keep their order
  cases options.redundantArms with
  | allow => rfl
  | warn => exact Diagnostic.sortByStart_relocate g hg _

/-- **The findings about a relocated program** are relocated, if starts keep their order and go
where their spans go. -/
theorem Program.check_relocate (p : Program) (options : CheckOptions) :
    (p.relocate g g).check options = (p.check options).map (Diagnostic.relocate g) := by
  have hdecls : (p.relocate g g).declFindings = p.declFindings.map (Diagnostic.relocate g) := by
    rw [declFindings, map_diagnostic_declErrors_relocate, Diagnostic.sortByStart_relocate g hg]
    rfl
  rw [check, check, hdecls, matchExprs_relocate, signature_relocate, List.flatMap_map,
    List.map_append, List.map_flatMap]
  exact congrArg _ (List.flatMap_congr fun m _ => m.check_relocate hfront hg p.signature options)

end Relocated

/-! ### Other names -/

/-- A span in another file. -/
def Span.inFile (file : String) (s : Span) : Span :=
  { s with file := file }

/-- Another name changes nothing that the reader looks at. -/
theorem Span.keeps_inFile (file : String) : Keeps (inFile file) where
  merge _ _ := rfl
  start_le _ _ := Iff.rfl
  line_lt _ _ := Iff.rfl

namespace Source

variable (path other : String) (text : List Char)

/-- The tokens of a text do not depend on its name, other than in their spans. -/
theorem tokens_renamed :
    tokens ⟨other, text⟩ = (tokens ⟨path, text⟩).map (Token.move (Span.inFile other)) := by
  -- from any position, since each lexeme moves the next one on
  have hplace (p : Position) (ls : List Lexeme) :
      Token.place other p ls = (Token.place path p ls).map (Token.move (Span.inFile other)) := by
    induction ls generalizing p with
    | nil => rfl
    | cons l ls ih => rw [Token.place_cons, Token.place_cons, List.map_cons, ← ih]; rfl
  exact hplace .first (Lexeme.scan text)

/-- **Under another name a text has the same findings**, with this name in their spans. -/
theorem check_renamed (options : CheckOptions) :
    check ⟨other, text⟩ options =
      (check ⟨path, text⟩ options).map (Diagnostic.relocate (Span.inFile other)) := by
  have htokens : (tokens ⟨other, text⟩).filter (!·.kind.isTrivia) =
      ((tokens ⟨path, text⟩).filter (!·.kind.isTrivia)).map (Token.move (Span.inFile other)) := by
    rw [tokens_renamed path, List.filter_map]
    rfl
  have hkeeps := Span.keeps_inFile other
  -- the reader never looks at names, so it reads the same items from the renamed tokens
  obtain ⟨hitems, herrors⟩ := Program.itemsFrom_relocates
    (Relocates.of_keeps hkeeps (endToken ⟨path, text⟩))
    ((tokens ⟨path, text⟩).filter (!·.kind.isTrivia))
  rw [← htokens] at hitems herrors
  have hprogram : (program ⟨other, text⟩).1 = (program ⟨path, text⟩).1.relocate (Span.inFile other)
      (Span.inFile other) := congrArg Program.mk hitems
  have hfindings := Program.check_relocate (g := Span.inFile other) (fun _ => rfl) hkeeps.start_le
    (program ⟨path, text⟩).1 options
  rw [← hprogram] at hfindings
  show _ ++ (program ⟨other, text⟩).1.check options = _
  rw [hfindings, check, List.map_append, List.map_map]
  exact congrArg (· ++ _) herrors

variable {path other text}

/-- All findings about a source are in the file of its name. -/
theorem file_of_mem_spans {source : Source} {options : CheckOptions} {d : Diagnostic}
    (hd : d ∈ source.check options) {s : Span} (hs : s ∈ d.spans) : s.file = source.path := by
  -- renamed to its own name a source has the same findings, all of them in that file
  have hself := check_renamed source.path source.path source.text options
  exact Diagnostic.forall_spans_of_fixed (G := (·.file = source.path)) (fun _ => rfl) hself d hd s
    hs

end Source

end MatchCheck
