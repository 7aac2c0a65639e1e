import MatchCheck.Diagnostic.Code

/-!
# Explanations of codes

What a user is told who asks about a code: the rule behind it, an example that breaks the rule and a
way out.
-/

namespace MatchCheck.Code

/-- The explanation of a code. -/
def explanation : Code → String
  | unexpectedToken =>
    "E0001: Unexpected token

The parser found a token that does not fit the grammar at this point.
Parsing resumes at the next `enum` or `match`.

Example:
  match Unit \x7b
    Unit \x7b\x7d        // expected `=>`, found `\x7b`
  \x7d

Fix: Add the missing punctuation or correct the syntax.
"
  | missingDelimiter =>
    "E0004: Missing closing delimiter

A parenthesis or brace was opened but a different token was found where
it should close.

Example:
  match One \x7b
    Two(True => \x7b\x7d  // expected `)`
  \x7d

Fix: Add the matching `)` or `\x7d`.
"
  | unexpectedEnd =>
    "E0008: Unexpected end of input

The file ended in the middle of a declaration, a match or an arm body.

Example:
  match Unit \x7b
    Unit => \x7b

Fix: Close every open block.
"
  | tooManyFields =>
    "E0011: Too many constructor fields

A constructor carries at most one field. Only the first one is kept.

Example:
  enum Pair \x7b Both(Boolean, Boolean) \x7d

Fix: Declare a separate type for the combination and use it as the
single field.
"
  | nestingTooDeep =>
    "E0012: Nesting too deep

A pattern or matched value nests constructor arguments more than 256
levels deep. The item is skipped and parsing resumes at the next `enum`
or `match`.

Example:
  match S(S(S(...(Z)...))) \x7b\x7d

Fix: Match on fewer levels at once and use `_` for the rest.
"
  | wrongConstructorType =>
    "E1001: Constructor of the wrong type

A pattern names a constructor that belongs to a different type than the
value being matched at that position.

Example:
  enum Boolean \x7b False, True \x7d
  enum Digit \x7b One, Two(Boolean) \x7d
  match One \x7b
    True => \x7b\x7d     // `True` is a Boolean, the value is a Digit
  \x7d

Fix: Use a constructor of the matched type.
"
  | unknownIdentifier =>
    "E1002: Unknown identifier

The value being matched names a constructor that is not declared.

Example:
  match Nope \x7b\x7d

Fix: Declare the constructor or fix the spelling.
"
  | nonExhaustiveMatch =>
    "E1004: Non-exhaustive match

The arms of a match do not cover every value of the matched type. The
message lists values that no arm matches. Nested constructor fields are
checked too: `Two(True)` alone does not cover `Two(False)`.

Example:
  enum Digit \x7b One, Two(Boolean) \x7d
  match One \x7b
    One => \x7b\x7d
    Two(True) => \x7b\x7d
  \x7d                // missing `Two(False)`

Fix: Add arms for the missing patterns or a `_` arm.

This error includes an auto-fix suggestion (`pmxc fix`).
"
  | duplicateConstructor =>
    "E1005: Duplicate constructor

A type declares the same constructor name twice. The second one is
ignored, apart from reporting an unknown field type (E1012).

Example:
  enum Boolean \x7b True, False, True \x7d

Fix: Remove or rename the duplicate.
"
  | wrongArgumentCount =>
    "E1007: Wrong number of arguments

A constructor is used with a different number of arguments than it
declares. The message shows given -> expected. The arm is left out of
the exhaustiveness check.

Example:
  enum Digit \x7b One, Two(Boolean) \x7d
  match One \x7b
    Two => \x7b\x7d          // (0 -> 1)
    One(True) => \x7b\x7d    // (1 -> 0)
  \x7d

Fix: Pass exactly the declared field, or none for a constructor without
one.
"
  | duplicateType =>
    "E1011: Duplicate type

Two enums share a name. The later declaration is ignored entirely,
though unknown field types in it are still reported (E1012).

Example:
  enum Unit \x7b Unit \x7d
  enum Unit \x7b Other \x7d

Fix: Rename one of the types.
"
  | unknownType =>
    "E1012: Unknown type

A constructor field names a type that is not declared. Types may be
declared in any order, so this is only reported when the name is not
declared anywhere in the file.

Example:
  enum Box \x7b Full(Missing) \x7d

Fix: Declare the type or fix the spelling.
"
  | unknownConstructor =>
    "E1016: Unknown constructor

A pattern names a constructor that is not declared in any type.

Example:
  match True \x7b
    Maybe => \x7b\x7d
  \x7d

Fix: Use a declared constructor of the matched type.
"
  | ambiguousConstructor =>
    "E1017: Ambiguous constructor

The value being matched names a constructor declared in several types,
so its type cannot be determined.

Example:
  enum Unit \x7b Unit \x7d
  enum Other \x7b Unit \x7d
  match Unit \x7b\x7d

Fix: Rename one of the constructors.
"
  | unreachableArm =>
    "W0003: Unreachable arm

Every value this arm matches is already matched by earlier arms, so it
can never run. Only reported with `redundant_arms = \"warn\"` in the
`[check]` table of pmxc.toml.

Example:
  match True \x7b
    True => \x7b\x7d
    False => \x7b\x7d
    _ => \x7b\x7d        // unreachable
  \x7d

Fix: Remove the arm.

This warning includes an auto-fix suggestion (`pmxc fix`).
"

end MatchCheck.Code
