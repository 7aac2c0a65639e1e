/-!
# Strings, keys and blanks of TOML

The lexical rules: which characters may stand in comments and strings, the escapes of basic strings,
and the four kinds of string literals. Each reader takes the text behind the opening mark and gives
the characters that were meant and what follows the closing mark. Readers that take a number of
steps need no more of them than one for each character and one for the end.
-/

namespace MatchCheck.Toml

/-- A blank inside a line. -/
def isBlank (c : Char) : Bool :=
  c == ' ' || c == '\t'

/-- What follows the blanks at the front. -/
def skipBlanks (cs : List Char) : List Char :=
  cs.dropWhile isBlank

/-- A character that may stand in a comment or, quotes and backslashes apart, in a string on one
line: no control character but the tabulator. -/
def isPlain (c : Char) : Bool :=
  c == '\t' || (0x20 ≤ c.toNat && c.toNat ≠ 0x7f)

/-- A character of a key without quotes. -/
def isBareKeyChar (c : Char) : Bool :=
  c.isAlphanum || c == '_' || c == '-'

/-- The value of hexadecimal digits in either case. -/
def hexDigits? (cs : List Char) : Option Nat :=
  cs.foldlM (fun n c =>
    if c.isDigit then some (n * 16 + (c.toNat - '0'.toNat))
    else if 'a' ≤ c && c ≤ 'f' then some (n * 16 + (c.toNat - 'a'.toNat + 10))
    else if 'A' ≤ c && c ≤ 'F' then some (n * 16 + (c.toNat - 'A'.toNat + 10))
    else none) 0

/-- The character of a code point, which must be no surrogate. -/
def charOfCode? (n : Nat) : Option Char :=
  if n.isValidChar then some (Char.ofNat n) else none

/-- The character that an escape stands for, and what follows it. The backslash is read. -/
def readEscape : List Char → Option (Char × List Char)
  | 'b' :: cs => some ('\x08', cs)
  | 't' :: cs => some ('\t', cs)
  | 'n' :: cs => some ('\n', cs)
  | 'f' :: cs => some ('\x0c', cs)
  | 'r' :: cs => some ('\r', cs)
  | '"' :: cs => some ('"', cs)
  | '\\' :: cs => some ('\\', cs)
  | 'u' :: a :: b :: c :: d :: cs => do
    return (← charOfCode? (← hexDigits? [a, b, c, d]), cs)
  | 'U' :: a :: b :: c :: d :: e :: f :: g :: h :: cs => do
    return (← charOfCode? (← hexDigits? [a, b, c, d, e, f, g, h]), cs)
  | _ => none

/-- A line end at the front. -/
def lineEnd? : List Char → Option (List Char)
  | '\n' :: cs => some cs
  | '\r' :: '\n' :: cs => some cs
  | _ => none

/-- Puts a character in front of what was read. -/
def consRead (c : Char) (r : List Char × List Char) : List Char × List Char :=
  (c :: r.1, r.2)

/-- The rest of a basic string on one line. -/
def readBasic : Nat → List Char → Option (List Char × List Char)
  | 0, _ => none
  | steps + 1, cs =>
    match cs with
    | '"' :: rest => some ([], rest)
    | '\\' :: rest => do
      let (c, rest) ← readEscape rest
      (readBasic steps rest).map (consRead c)
    | c :: rest => if isPlain c then (readBasic steps rest).map (consRead c) else none
    | [] => none

/-- The rest of a literal string on one line. -/
def readLiteral : List Char → Option (List Char × List Char)
  | '\'' :: rest => some ([], rest)
  | c :: rest => if isPlain c then (readLiteral rest).map (consRead c) else none
  | [] => none

/-- What follows a backslash at the end of a line: the line end and all blanks and line ends behind
it are passed over. -/
def skipLineContinuation? (cs : List Char) : Option (List Char) :=
  (lineEnd? (skipBlanks cs)).map fun rest =>
    rest.dropWhile fun c => isBlank c || c == '\n' || c == '\r'

/-- Whether every carriage return in front of the given suffix belongs to a line end. -/
def wholeLineEnds : List Char → Bool
  | '\r' :: '\n' :: cs => wholeLineEnds cs
  | '\r' :: _ => false
  | _ :: cs => wholeLineEnds cs
  | [] => true

/-- The rest of a basic string over several lines. It is closed by three quotes, in front of which
one or two more may stand as its last characters. -/
def readLongBasic : Nat → List Char → Option (List Char × List Char)
  | 0, _ => none
  | steps + 1, cs =>
    match cs with
    | '"' :: '"' :: '"' :: '"' :: '"' :: rest => some (['"', '"'], rest)
    | '"' :: '"' :: '"' :: '"' :: rest => some (['"'], rest)
    | '"' :: '"' :: '"' :: rest => some ([], rest)
    | '"' :: rest => (readLongBasic steps rest).map (consRead '"')
    | '\\' :: rest =>
      match skipLineContinuation? rest with
      | some after =>
        if wholeLineEnds (rest.take (rest.length - after.length)) then readLongBasic steps after
        else none
      | none => do
        let (c, rest) ← readEscape rest
        (readLongBasic steps rest).map (consRead c)
    | c :: rest =>
      match lineEnd? cs with
      | some rest => (readLongBasic steps rest).map (consRead '\n')
      | none => if isPlain c then (readLongBasic steps rest).map (consRead c) else none
    | [] => none

/-- The rest of a literal string over several lines. -/
def readLongLiteral : Nat → List Char → Option (List Char × List Char)
  | 0, _ => none
  | steps + 1, cs =>
    match cs with
    | '\'' :: '\'' :: '\'' :: '\'' :: '\'' :: rest => some (['\'', '\''], rest)
    | '\'' :: '\'' :: '\'' :: '\'' :: rest => some (['\''], rest)
    | '\'' :: '\'' :: '\'' :: rest => some ([], rest)
    | c :: rest =>
      match lineEnd? cs with
      | some rest => (readLongLiteral steps rest).map (consRead '\n')
      | none => if isPlain c then (readLongLiteral steps rest).map (consRead c) else none
    | [] => none

/-- What follows a line end at the front, or the text as it is. -/
def dropLineEnd (cs : List Char) : List Char :=
  (lineEnd? cs).getD cs

/-- A string of any kind. -/
def readString (steps : Nat) : List Char → Option (List Char × List Char)
  | '"' :: '"' :: '"' :: cs => readLongBasic steps (dropLineEnd cs)
  | '"' :: cs => readBasic steps cs
  | '\'' :: '\'' :: '\'' :: cs => readLongLiteral steps (dropLineEnd cs)
  | '\'' :: cs => readLiteral cs
  | _ => none

/-- One part of a key: bare, or a string on one line. -/
def readKeyPart (steps : Nat) : List Char → Option (String × List Char)
  | '"' :: cs => (readBasic steps cs).map fun (s, rest) => (String.ofList s, rest)
  | '\'' :: cs => (readLiteral cs).map fun (s, rest) => (String.ofList s, rest)
  | cs =>
    match cs.takeWhile isBareKeyChar with
    | [] => none
    | part => some (String.ofList part, cs.dropWhile isBareKeyChar)

/-- The parts of a key, divided by dots with blanks around them: all but the last, and the last. -/
def readKey : Nat → List Char → Option (List String × String × List Char)
  | 0, _ => none
  | steps + 1, cs => do
    let (part, rest) ← readKeyPart steps (skipBlanks cs)
    match skipBlanks rest with
    | '.' :: rest =>
      let (parts, last, rest) ← readKey steps rest
      return (part :: parts, last, rest)
    | rest => return ([], part, rest)

/-- What follows the end of a line: blanks and a comment may come first, and the text may end. -/
def finishLine? (cs : List Char) : Option (List Char) :=
  let rest := match skipBlanks cs with
    | '#' :: rest => rest.dropWhile isPlain
    | rest => rest
  match rest with
  | [] => some []
  | rest => lineEnd? rest

end MatchCheck.Toml
