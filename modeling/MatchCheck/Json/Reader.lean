import MatchCheck.Json.Basic

/-!
# Reading JSON

`Json.ofChars?` reads a text that holds one value, with blanks around it and between its parts, and
refuses any other. The readers of values, items and members take a number of steps that bounds how
deep they recurse; the length of the text is enough, and the wrapper supplies it.
-/

namespace MatchCheck.Json

/-- Blanks between the parts of a value. -/
def isBlank (c : Char) : Bool :=
  c == ' ' || c == '\n' || c == '\t' || c == '\r'

/-- What follows the blanks at the front. -/
def skipBlanks (cs : List Char) : List Char :=
  cs.dropWhile isBlank

/-! ### Strings -/

/-- The value of a hexadecimal digit in either case. -/
def hexValue? (c : Char) : Option Nat :=
  if c.isDigit then some (c.toNat - '0'.toNat)
  else if 'a' ≤ c && c ≤ 'f' then some (c.toNat - 'a'.toNat + 10)
  else if 'A' ≤ c && c ≤ 'F' then some (c.toNat - 'A'.toNat + 10)
  else none

/-- The value of four hexadecimal digits. -/
def hexValue4? (a b c d : Char) : Option Nat := do
  return (((← hexValue? a) * 16 + (← hexValue? b)) * 16 + (← hexValue? c)) * 16 + (← hexValue? d)

/-- The first half of a surrogate pair. -/
def isHighSurrogate (n : Nat) : Bool :=
  0xD800 ≤ n && n < 0xDC00

/-- The second half of a surrogate pair. -/
def isLowSurrogate (n : Nat) : Bool :=
  0xDC00 ≤ n && n < 0xE000

/-- The character of a surrogate pair. -/
def surrogatePair (high low : Nat) : Char :=
  Char.ofNat (0x10000 + (high - 0xD800) * 0x400 + (low - 0xDC00))

/-- The character that a letter stands for behind a backslash. -/
def escaped? : Char → Option Char
  | '"' => some '"'
  | '\\' => some '\\'
  | '/' => some '/'
  | 'b' => some '\x08'
  | 'f' => some '\x0c'
  | 'n' => some '\n'
  | 'r' => some '\r'
  | 't' => some '\t'
  | _ => none

/-- Puts a character in front of a text that was read. -/
def consText (c : Char) (r : Option (List Char) × List Char) : Option (List Char) × List Char :=
  (r.1.map (c :: ·), r.2)

/-- The rest of a string literal: its text, unless half of a surrogate pair stands in it, and what
follows the closing quote. -/
def readText : List Char → Option (Option (List Char) × List Char)
  | [] => none
  | '"' :: cs => some (some [], cs)
  | '\\' :: 'u' :: a :: b :: c :: d :: '\\' :: 'u' :: a' :: b' :: c' :: d' :: cs => do
    let first ← hexValue4? a b c d
    if isHighSurrogate first then
      match hexValue4? a' b' c' d' with
      | some second =>
        if isLowSurrogate second then
          (readText cs).map (consText (surrogatePair first second))
        else
          (readText ('\\' :: 'u' :: a' :: b' :: c' :: d' :: cs)).map fun r => (none, r.2)
      | none => none
    else if isLowSurrogate first then
      (readText ('\\' :: 'u' :: a' :: b' :: c' :: d' :: cs)).map fun r => (none, r.2)
    else
      (readText ('\\' :: 'u' :: a' :: b' :: c' :: d' :: cs)).map (consText (Char.ofNat first))
  | '\\' :: 'u' :: a :: b :: c :: d :: cs => do
    let code ← hexValue4? a b c d
    if isHighSurrogate code || isLowSurrogate code then
      (readText cs).map fun r => (none, r.2)
    else
      (readText cs).map (consText (Char.ofNat code))
  | '\\' :: c :: cs => do
    let e ← escaped? c
    (readText cs).map (consText e)
  | c :: cs => if c.toNat < 0x20 || c = '\\' then none else (readText cs).map (consText c)

/-- The value of a string literal that was read. -/
def ofText : Option (List Char) → Json
  | some cs => text (String.ofList cs)
  | none => unpaired

/-- The value of members that were read. -/
def ofMembers : Option (List (String × Json)) → Json
  | some members => object members
  | none => unpaired

/-- Puts a member in front of those that were read, if all their names stand for texts. -/
def consMember (name : Option (List Char)) (value : Json)
    (members : Option (List (String × Json))) : Option (List (String × Json)) := do
  return (String.ofList (← name), value) :: (← members)

/-! ### Numbers -/

/-- The value of decimal digits. -/
def ofDigits (ds : List Char) : Nat :=
  ds.foldl (fun n d => n * 10 + (d.toNat - '0'.toNat)) 0

/-- Digits at the front, at least one. -/
def digits1? (cs : List Char) : Option (List Char × List Char) :=
  match cs.takeWhile Char.isDigit with
  | [] => none
  | ds => some (ds, cs.dropWhile Char.isDigit)

/-- The whole part of a number: a zero alone, or digits that do not begin with zero. -/
def readWhole : List Char → Option (List Char × List Char)
  | '0' :: cs => if (cs.head?.map Char.isDigit).getD false then none else some (['0'], cs)
  | cs => digits1? cs

/-- The fraction of a number, if one follows. -/
def readFraction : List Char → Option (List Char × List Char)
  | '.' :: cs => (digits1? cs).map fun (ds, rest) => ('.' :: ds, rest)
  | cs => some ([], cs)

/-- The sign of an exponent, if one is written. -/
def readSign : List Char → List Char × List Char
  | '+' :: cs => (['+'], cs)
  | '-' :: cs => (['-'], cs)
  | cs => ([], cs)

/-- The exponent of a number, if one follows. -/
def readExponent : List Char → Option (List Char × List Char)
  | c :: cs =>
    if c = 'e' || c = 'E' then
      let (sign, rest) := readSign cs
      (digits1? rest).map fun (ds, rest) => (c :: sign ++ ds, rest)
    else some ([], c :: cs)
  | [] => some ([], [])

/-- A number without its minus sign. Plain digits are a natural number. -/
def readUnsigned (cs : List Char) : Option (Json × List Char) := do
  let (whole, rest) ← readWhole cs
  let (fraction, rest) ← readFraction rest
  let (exponent, rest) ← readExponent rest
  if fraction.isEmpty && exponent.isEmpty then
    return (natural (ofDigits whole), rest)
  else
    return (number (whole ++ fraction ++ exponent), rest)

/-- A number. With a minus sign it keeps its literal. -/
def readNumber : List Char → Option (Json × List Char)
  | '-' :: cs => do
    let (whole, rest) ← readWhole cs
    let (fraction, rest) ← readFraction rest
    let (exponent, rest) ← readExponent rest
    return (number ('-' :: whole ++ fraction ++ exponent), rest)
  | cs => readUnsigned cs

/-! ### Values -/

/-- What follows a word at the front, if the text begins with it. -/
def after? : List Char → List Char → Option (List Char)
  | [], cs => some cs
  | w :: ws, c :: cs => if w = c then after? ws cs else none
  | _ :: _, [] => none

/-- A word that stands for a value. -/
def readWord (word : String) (value : Json) (cs : List Char) : Option (Json × List Char) :=
  (after? word.toList cs).map (value, ·)

mutual

/-- A value at the front of a text, in at most the given number of steps. -/
def readValue : Nat → List Char → Option (Json × List Char)
  | 0, _ => none
  | steps + 1, cs =>
    match cs with
    | '"' :: rest => (readText rest).map fun (s, rest) => (ofText s, rest)
    | '[' :: rest =>
      match skipBlanks rest with
      | ']' :: rest => some (array [], rest)
      | rest => (readItems steps rest).map fun (items, rest) => (array items, rest)
    | '\x7b' :: rest =>
      match skipBlanks rest with
      | '\x7d' :: rest => some (object [], rest)
      | rest => (readMembers steps rest).map fun (members, rest) => (ofMembers members, rest)
    | 'n' :: _ => readWord "null" null cs
    | 't' :: _ => readWord "true" (bool true) cs
    | 'f' :: _ => readWord "false" (bool false) cs
    | cs => readNumber cs

/-- One or more items and the end of their array. -/
def readItems : Nat → List Char → Option (List Json × List Char)
  | 0, _ => none
  | steps + 1, cs => do
    let (item, rest) ← readValue steps cs
    match skipBlanks rest with
    | ']' :: rest => return ([item], rest)
    | ',' :: rest =>
      let (items, rest) ← readItems steps (skipBlanks rest)
      return (item :: items, rest)
    | _ => none

/-- One or more members and the end of their object. There are no members if one of the names stands
for no text. -/
def readMembers : Nat → List Char → Option (Option (List (String × Json)) × List Char)
  | 0, _ => none
  | steps + 1, cs =>
    match cs with
    | '"' :: rest => do
      let (name, rest) ← readText rest
      let ':' :: rest := skipBlanks rest | none
      let (value, rest) ← readValue steps (skipBlanks rest)
      match skipBlanks rest with
      | '\x7d' :: rest => return (consMember name value (some []), rest)
      | ',' :: rest =>
        let (members, rest) ← readMembers steps (skipBlanks rest)
        return (consMember name value members, rest)
      | _ => none
    | _ => none

end

/-- The value that a text holds, with nothing but blanks around it. -/
def ofChars? (cs : List Char) : Option Json := do
  let (value, rest) ← readValue (2 * cs.length + 2) (skipBlanks cs)
  if (skipBlanks rest).isEmpty then some value else none

end MatchCheck.Json
