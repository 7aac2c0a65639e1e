import MatchCheck.Check.Basic
import MatchCheck.Run.Fix

/-!
# The codes of errors

Which code an error of the syntax, of a declaration or of a match is reported under is read off the
error (`code_diagnostic`). The code of arms that can never be reached is that of no error
(`code_ne_unreachableArm`), so the findings under it can be taken away from all others. The codes of
syntax errors begin alike, and no finding about a match has such a code, since the codes that it can
have are listed (`MatchExpr.exists_code_of_mem_check`).
-/

namespace MatchCheck

/-- The codes of syntax errors. -/
def Code.isSyntax : Code → Bool
  | unexpectedToken | missingDelimiter | unexpectedEnd | tooManyFields | nestingTooDeep => true
  | _ => false

namespace SyntaxError

/-- The code under which a syntax error is reported. -/
def code : SyntaxError → Code
  | unexpected expected found => unexpectedCode expected found
  | unclosedBlock _ _ => .unexpectedEnd
  | tooManyFields _ _ => .tooManyFields
  | tooDeep _ => .nestingTooDeep

variable (e : SyntaxError)

/-- A syntax error is reported under its code. -/
theorem code_diagnostic : e.diagnostic.code = e.code.text := by
  cases e <;> rfl

/-- For a token that does not fit there are three codes. -/
theorem unexpectedCode_cases (expected : Expectation) (found : Token) :
    unexpectedCode expected found = .unexpectedEnd ∨
      unexpectedCode expected found = .missingDelimiter ∨
      unexpectedCode expected found = .unexpectedToken := by
  unfold unexpectedCode
  split
  · exact .inl rfl
  · split
    · exact .inr (.inl rfl)
    · exact .inr (.inr rfl)

/-- All errors of the syntax have codes of the syntax. -/
theorem isSyntax_code : e.code.isSyntax = true := by
  cases e with
  | unexpected expected found =>
    rcases unexpectedCode_cases expected found with h | h | h <;> simp [code, h, Code.isSyntax]
  | _ => rfl

/-- No syntax error is reported under a code of another kind. -/
theorem code_ne {c : Code} (h : c.isSyntax = false) : e.code ≠ c := by
  rintro rfl
  rw [e.isSyntax_code] at h
  cases h

theorem code_ne_unreachableArm : e.code ≠ .unreachableArm :=
  e.code_ne rfl

end SyntaxError

namespace DeclError

/-- The code under which a wrong declaration is reported. -/
def code : DeclError → Code
  | duplicateType _ _ => .duplicateType
  | duplicateCtor _ _ _ => .duplicateConstructor
  | unknownType _ => .unknownType

variable (e : DeclError)

/-- A wrong declaration is reported under its code. -/
theorem code_diagnostic : e.diagnostic.code = e.code.text := by
  cases e <;> rfl

theorem code_ne_unreachableArm : e.code ≠ .unreachableArm := by
  cases e <;> simp [code]

end DeclError

namespace MatchError

/-- The code under which a misfit is reported. -/
def code : MatchError → Code
  | unknownScrutinee _ => .unknownIdentifier
  | ambiguousScrutinee _ _ => .ambiguousConstructor
  | wrongType _ _ _ => .wrongConstructorType
  | unknownArgument _ _ => .unknownIdentifier
  | unknownCtor _ _ => .unknownConstructor
  | argumentCount _ _ _ => .wrongArgumentCount

variable (e : MatchError)

/-- A misfit is reported under its code. -/
theorem code_diagnostic : e.diagnostic.code = e.code.text := by
  cases e <;> rfl

theorem code_ne_unreachableArm : e.code ≠ .unreachableArm := by
  cases e <;> simp [code]

end MatchError

/-! ### Findings about the syntax -/

/-- The codes of the syntax are those that begin like them, so that a fix can tell them by their
texts. -/
theorem Code.isSyntaxCode_text (c : Code) : Run.isSyntaxCode c.text = c.isSyntax := by
  cases c <;> decide +kernel

theorem SyntaxError.isSyntaxCode_diagnostic (e : SyntaxError) :
    Run.isSyntaxCode e.diagnostic.code = true := by
  rw [e.code_diagnostic, Code.isSyntaxCode_text, e.isSyntax_code]

theorem DeclError.isSyntaxCode_diagnostic (e : DeclError) :
    Run.isSyntaxCode e.diagnostic.code = false := by
  cases e <;> exact Code.isSyntaxCode_text _

/-! ### Findings about matches -/

/-- The codes of findings about matches: misfits, unreachable arms and missing cases. -/
def Code.ofMatches : List Code :=
  [unknownIdentifier, ambiguousConstructor, wrongConstructorType, unknownConstructor,
    wrongArgumentCount, unreachableArm, nonExhaustiveMatch]

namespace MatchExpr

variable {sig : Signature} {options : CheckOptions} {m : MatchExpr} {x : Diagnostic}

/-- A finding about a match has one of these codes. -/
theorem exists_code_of_mem_check (hx : x ∈ m.check sig options) :
    ∃ c ∈ Code.ofMatches, x.code = c.text := by
  have herror : ∀ errors : List MatchError, x ∈ errors.map MatchError.diagnostic →
      ∃ c ∈ Code.ofMatches, x.code = c.text := by
    intro errors hx
    obtain ⟨e, -, rfl⟩ := List.mem_map.mp hx
    refine ⟨e.code, ?_, e.code_diagnostic⟩
    cases e <;> simp [MatchError.code, Code.ofMatches]
  -- without a type there are errors only; with one also unreachable arms, if asked for, and missing
  -- cases
  simp only [MatchExpr.check] at hx
  split at hx
  · exact herror _ hx
  · next r _ =>
    rcases List.mem_append.mp hx with hx | hx
    · split at hx
      · exact herror _ hx
      · rcases List.mem_append.mp (List.mem_mergeSort.mp hx) with hx | hx
        · exact herror _ hx
        · obtain ⟨found, -, rfl⟩ := List.mem_map.mp hx
          exact ⟨.unreachableArm, by decide, rfl⟩
    · -- at most one finding is about missing cases
      unfold missingCases at hx
      split at hx
      · cases hx
      · obtain rfl := List.mem_singleton.mp hx
        exact ⟨.nonExhaustiveMatch, by decide, rfl⟩

/-- No finding about a match is about the syntax. -/
theorem isSyntaxCode_of_mem_check (hx : x ∈ m.check sig options) :
    Run.isSyntaxCode x.code = false := by
  have hnone : ∀ c ∈ Code.ofMatches, c.isSyntax = false := by decide
  obtain ⟨c, hc, hcode⟩ := exists_code_of_mem_check hx
  rw [hcode, Code.isSyntaxCode_text]
  exact hnone c hc

end MatchExpr

end MatchCheck
