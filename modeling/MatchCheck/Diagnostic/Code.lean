/-!
# Codes of findings

Every finding of the analysis carries a code that stays the same from release to release: tools
filter by it and users ask for its explanation. Codes that begin with `E0` belong to the syntax,
those that begin with `E1` to declarations and patterns, and `W0` marks warnings.
-/

namespace MatchCheck

/-- What kind of problem a finding is. -/
inductive Code where
  | unexpectedToken
  | missingDelimiter
  | unexpectedEnd
  | tooManyFields
  | nestingTooDeep
  | wrongConstructorType
  | unknownIdentifier
  | nonExhaustiveMatch
  | duplicateConstructor
  | wrongArgumentCount
  | duplicateType
  | unknownType
  | unknownConstructor
  | ambiguousConstructor
  | unreachableArm
deriving DecidableEq, Repr

namespace Code

/-- The code as it is printed. -/
def text : Code → String
  | unexpectedToken => "E0001"
  | missingDelimiter => "E0004"
  | unexpectedEnd => "E0008"
  | tooManyFields => "E0011"
  | nestingTooDeep => "E0012"
  | wrongConstructorType => "E1001"
  | unknownIdentifier => "E1002"
  | nonExhaustiveMatch => "E1004"
  | duplicateConstructor => "E1005"
  | wrongArgumentCount => "E1007"
  | duplicateType => "E1011"
  | unknownType => "E1012"
  | unknownConstructor => "E1016"
  | ambiguousConstructor => "E1017"
  | unreachableArm => "W0003"

/-- All codes in the order of their numbers, warnings last. -/
def all : List Code :=
  [unexpectedToken, missingDelimiter, unexpectedEnd, tooManyFields, nestingTooDeep,
    wrongConstructorType, unknownIdentifier, nonExhaustiveMatch, duplicateConstructor,
    wrongArgumentCount, duplicateType, unknownType, unknownConstructor, ambiguousConstructor,
    unreachableArm]

/-- The code with the given text. -/
def ofText? (s : String) : Option Code :=
  all.find? (·.text = s)

theorem mem_all (c : Code) : c ∈ all := by
  cases c <;> decide

@[simp] theorem ofText?_text (c : Code) : ofText? c.text = some c := by
  cases c <;> decide

/-- Different codes are printed differently. -/
theorem text_inj {c d : Code} : c.text = d.text ↔ c = d := by
  refine ⟨fun h => ?_, congrArg text⟩
  rw [← Option.some_inj, ← ofText?_text, ← ofText?_text, h]

end Code

end MatchCheck
