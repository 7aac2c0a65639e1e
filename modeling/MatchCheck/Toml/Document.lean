import MatchCheck.Toml.Number
import MatchCheck.Toml.Text

/-!
# Reading TOML documents

A document is read line by line: a line holds a key and its value, a header, a comment or nothing.
Values are read by mutual recursion and nest at most `maxDepth` deep. The readers take a number of
steps, of which two for each character are enough. Text that does not follow the format has no
document; why it does not is not told.
-/

namespace MatchCheck.Toml

/-- How deep arrays and inline tables nest. -/
def maxDepth : Nat := 79

/-- How many parts a key has at most. -/
def maxKeyParts : Nat := 79

/-- A key of an admitted number of parts. -/
def readWholeKey (steps : Nat) (cs : List Char) : Option (List String × String × List Char) := do
  let (parts, last, rest) ← readKey steps cs
  if parts.length < maxKeyParts then some (parts, last, rest) else none

/-- What follows blanks, line ends and comments. -/
def skipFiller : Nat → List Char → Option (List Char)
  | 0, _ => none
  | steps + 1, cs =>
    match skipBlanks cs with
    | '#' :: rest =>
      match rest.dropWhile isPlain with
      | [] => some []
      | rest => (lineEnd? rest).bind (skipFiller steps)
    | rest =>
      match lineEnd? rest with
      | some rest => skipFiller steps rest
      | none => some rest

mutual

/-- A value, in at most the given number of steps and with room for `depth` levels. -/
def readValue : Nat → Nat → List Char → Option (Toml × List Char)
  | 0, _, _ => none
  | steps + 1, depth, cs =>
    match cs with
    | '"' :: _ => (readString steps cs).map fun (s, rest) => (string (String.ofList s), rest)
    | '\'' :: _ => (readString steps cs).map fun (s, rest) => (string (String.ofList s), rest)
    | '[' :: rest =>
      match depth with
      | 0 => none
      | depth + 1 => (readItems steps depth rest).map fun (items, rest) => (array items, rest)
    | '\x7b' :: rest =>
      match depth with
      | 0 => none
      | depth + 1 =>
        match skipBlanks rest with
        | '\x7d' :: rest => some (table .inline [], rest)
        | rest =>
          (readEntries steps depth [] rest).map fun (entries, rest) => (table .inline entries, rest)
    | 't' :: 'r' :: 'u' :: 'e' :: rest => some (boolean true, rest)
    | 'f' :: 'a' :: 'l' :: 's' :: 'e' :: rest => some (boolean false, rest)
    | cs => readNumeric cs

/-- The items of an array and its end. A comma may stand behind the last. -/
def readItems : Nat → Nat → List Char → Option (List Toml × List Char)
  | 0, _, _ => none
  | steps + 1, depth, cs => do
    match ← skipFiller steps cs with
    | ']' :: rest => return ([], rest)
    | rest =>
      let (item, rest) ← readValue steps depth rest
      match ← skipFiller steps rest with
      | ',' :: rest =>
        let (items, rest) ← readItems steps depth rest
        return (item :: items, rest)
      | ']' :: rest => return ([item], rest)
      | _ => none

/-- One or more entries of an inline table, added to those read before, and its end. -/
def readEntries : Nat → Nat → List (String × Toml) → List Char →
    Option (List (String × Toml) × List Char)
  | 0, _, _, _ => none
  | steps + 1, depth, entries, cs => do
    let (parts, last, rest) ← readWholeKey steps cs
    let '=' :: rest := rest | none
    let (value, rest) ← readValue steps depth (skipBlanks rest)
    let entries ← insertDotted parts last value .inline entries
    match skipBlanks rest with
    | ',' :: rest => readEntries steps depth entries rest
    | '\x7d' :: rest => return (entries, rest)
    | _ => none

end

/-- A document in progress: what was read, and the keys of the table that takes further lines. -/
structure Draft where
  entries : List (String × Toml)
  current : List String

/-- A header behind its opening bracket. -/
def readHeader (steps : Nat) (draft : Draft) : List Char → Option (Draft × List Char)
  | '[' :: cs => do
    let (parts, last, rest) ← readWholeKey steps cs
    let ']' :: ']' :: rest := rest | none
    let entries ← openTables parts last draft.entries
    return (⟨entries, parts ++ [last]⟩, rest)
  | cs => do
    let (parts, last, rest) ← readWholeKey steps cs
    let ']' :: rest := rest | none
    let entries ← openTable parts last draft.entries
    return (⟨entries, parts ++ [last]⟩, rest)

/-- A key and its value, added to the current table. -/
def readEntry (steps : Nat) (draft : Draft) (cs : List Char) : Option (Draft × List Char) := do
  let (parts, last, rest) ← readWholeKey steps cs
  let '=' :: rest := rest | none
  let (value, rest) ← readValue steps maxDepth (skipBlanks rest)
  let entries ← descendHeader draft.current (insertDotted parts last value) .header draft.entries
  return (⟨entries, draft.current⟩, rest)

/-- The lines of a document. -/
def readLines : Nat → Draft → List Char → Option Draft
  | 0, _, _ => none
  | steps + 1, draft, cs =>
    match skipBlanks cs with
    | [] => some draft
    | '[' :: rest => do
      let (draft, rest) ← readHeader steps draft rest
      readLines steps draft (← finishLine? rest)
    | '#' :: rest => do readLines steps draft (← finishLine? ('#' :: rest))
    | rest =>
      match lineEnd? rest with
      | some rest => readLines steps draft rest
      | none => do
        let (draft, rest) ← readEntry steps draft rest
        readLines steps draft (← finishLine? rest)

/-- The entries of the document that a text holds. A byte order mark may stand at its front. -/
def ofChars? (cs : List Char) : Option (List (String × Toml)) :=
  let cs := match cs with
    | '﻿' :: rest => rest
    | cs => cs
  (readLines (2 * cs.length + 2) ⟨[], []⟩ cs).map (·.entries)

end MatchCheck.Toml
