import MatchCheck.Json.Basic

/-!
# Writing JSON

Two layouts of a value: `compact` writes no blank at all, and `pretty` puts every item and member on
a line of its own, indented by two spaces for each level; empty arrays and objects stay on one line.

Inside a string, the quote, the backslash and the characters below the space are escaped, those with
a letter of their own by that letter and the others by four hexadecimal digits. All other characters
stand for themselves.
-/

namespace MatchCheck.Json

/-- A hexadecimal digit in lower case. -/
def hexDigit (n : Nat) : Char :=
  Nat.digitChar (n % 16)

/-- A character inside a string. -/
def escape (c : Char) : List Char :=
  match c with
  | '"' => ['\\', '"']
  | '\\' => ['\\', '\\']
  | '\x08' => ['\\', 'b']
  | '\x0c' => ['\\', 'f']
  | '\n' => ['\\', 'n']
  | '\r' => ['\\', 'r']
  | '\t' => ['\\', 't']
  | c =>
    if c.toNat < 0x20 then
      ['\\', 'u', '0', '0', hexDigit (c.toNat / 16), hexDigit c.toNat]
    else [c]

/-- A text as a string literal. -/
def quoted (s : String) : List Char :=
  '"' :: s.toList.flatMap escape ++ ['"']

/-- A natural number in decimal digits. -/
def digits (n : Nat) : List Char :=
  Nat.toDigits 10 n

/-- A value that has no parts. Arrays and objects are written as the empty ones. -/
def scalar : Json → List Char
  | null => "null".toList
  | bool true => "true".toList
  | bool false => "false".toList
  | natural n => digits n
  | number literal => literal
  | text s => quoted s
  | unpaired => "\"\\ud800\"".toList
  | array _ => ['[', ']']
  | object _ => ['\x7b', '\x7d']

mutual

/-- A value without any blanks. -/
def compact : Json → List Char
  | array (item :: items) => '[' :: compact item ++ compactItems items
  | object ((name, value) :: members) =>
    '\x7b' :: quoted name ++ ':' :: compact value ++ compactMembers members
  | j => scalar j

/-- The further items of an array and its end. -/
def compactItems : List Json → List Char
  | [] => [']']
  | item :: items => ',' :: compact item ++ compactItems items

/-- The further members of an object and its end. -/
def compactMembers : List (String × Json) → List Char
  | [] => ['\x7d']
  | (name, value) :: members =>
    ',' :: quoted name ++ ':' :: compact value ++ compactMembers members

end

/-- A line end and the indentation of the next line. -/
def lineAt (level : Nat) : List Char :=
  '\n' :: List.replicate (2 * level) ' '

mutual

/-- A value with each part on a line of its own, at a level of indentation. -/
def prettyAt (level : Nat) : Json → List Char
  | array (item :: items) =>
    '[' :: lineAt (level + 1) ++ prettyAt (level + 1) item ++ prettyItems level items
  | object ((name, value) :: members) =>
    '\x7b' :: lineAt (level + 1) ++ quoted name ++ ':' :: ' ' :: prettyAt (level + 1) value
      ++ prettyMembers level members
  | j => scalar j

/-- The further items of an array at a level, and its end. -/
def prettyItems (level : Nat) : List Json → List Char
  | [] => lineAt level ++ [']']
  | item :: items =>
    ',' :: lineAt (level + 1) ++ prettyAt (level + 1) item ++ prettyItems level items

/-- The further members of an object at a level, and its end. -/
def prettyMembers (level : Nat) : List (String × Json) → List Char
  | [] => lineAt level ++ ['\x7d']
  | (name, value) :: members =>
    ',' :: lineAt (level + 1) ++ quoted name ++ ':' :: ' ' :: prettyAt (level + 1) value
      ++ prettyMembers level members

end

/-- A value with each part on a line of its own. -/
def pretty (j : Json) : List Char :=
  prettyAt 0 j

end MatchCheck.Json
