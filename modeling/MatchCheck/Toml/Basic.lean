import MatchCheck.Decimal.Binary

/-!
# TOML values and tables

A TOML document is a table of values. Where a table comes from decides what may still be added to
it: a table of a header takes the keys below its header and further tables below it, a table that a
header or a dotted key merely implies may still be given its own header or further dotted keys, and
an inline table is closed. The entries of a table are kept in the order of their definition.

`Toml.descend` is the one operation on nested tables: it goes down along keys, making the tables
that are missing, and changes the entries it arrives at. The rules of the format on what may be
reopened are its parameters.
-/

namespace MatchCheck

/-- How a table came to be. -/
inductive TableOrigin where
  /-- It has a header of its own, or is the document itself. -/
  | header
  /-- It is named on the way to a table with a header. -/
  | implied
  /-- It is named on the way to a dotted key. -/
  | dotted
  /-- It is written as a value. -/
  | inline
deriving DecidableEq, Repr

/-- A TOML value. Of a date or time only its being one is kept. -/
inductive Toml where
  | string (value : String)
  | integer (value : Int)
  | float (value : Decimal.Binary)
  | boolean (value : Bool)
  | datetime
  | array (items : List Toml)
  | table (origin : TableOrigin) (entries : List (String × Toml))
  | tables (items : List Toml)
deriving Repr, Inhabited

namespace Toml

/-- The value under a key. -/
def get? (entries : List (String × Toml)) (key : String) : Option Toml :=
  (entries.find? (·.1 = key)).map (·.2)

/-- Puts a value under a key that is there already, in its old place. -/
def replace (entries : List (String × Toml)) (key : String) (value : Toml) :
    List (String × Toml) :=
  entries.map fun entry => if entry.1 = key then (key, value) else entry

/-- Removes the value under a key. -/
def erase (entries : List (String × Toml)) (key : String) : List (String × Toml) :=
  entries.filter (·.1 ≠ key)

/-- Changes the entries of a table reached along keys. Missing tables are made with the origin
`make`, tables whose origin is not `open` stop the descent, and of an array of tables the last one
is entered. The change is told the origin of the table it is applied to. -/
def descend (make : TableOrigin) (open' : TableOrigin → Bool)
    (change : TableOrigin → List (String × Toml) → Option (List (String × Toml))) :
    List String → TableOrigin → List (String × Toml) → Option (List (String × Toml))
  | [], origin, entries => change origin entries
  | key :: keys, _, entries =>
    match get? entries key with
    | none => do
      let inner ← descend make open' change keys make []
      return entries ++ [(key, table make inner)]
    | some (table origin inner) =>
      if open' origin then do
        let inner ← descend make open' change keys origin inner
        return replace entries key (table origin inner)
      else none
    | some (tables items) =>
      match items.getLast? with
      | some (table origin inner) => do
        let inner ← descend make open' change keys origin inner
        return replace entries key (tables (items.dropLast ++ [table origin inner]))
      | _ => none
    | some _ => none

/-- Goes down along the keys of a header, for which every table but an inline one is open. -/
def descendHeader (keys : List String)
    (change : TableOrigin → List (String × Toml) → Option (List (String × Toml))) :
    TableOrigin → List (String × Toml) → Option (List (String × Toml)) :=
  descend .implied (· ≠ .inline) change keys

/-- Adds a value under a dotted key. A table with a header of its own is not reopened by a dotted
key, and the table that takes the value must stem from a dotted key itself. -/
def insertDotted (keys : List String) (last : String) (value : Toml) :
    TableOrigin → List (String × Toml) → Option (List (String × Toml)) :=
  descend .dotted (fun origin => origin = .implied || origin = .dotted)
    (fun origin entries =>
      if (!keys.isEmpty && origin ≠ .dotted) || (get? entries last).isSome then none
      else some (entries ++ [(last, value)]))
    keys

/-- Opens the table of a header. A table that was only implied is taken over, with its place moved
behind the entries defined so far. -/
def openTable (keys : List String) (last : String) (document : List (String × Toml)) :
    Option (List (String × Toml)) :=
  descendHeader keys (fun _ entries =>
    match get? entries last with
    | none => some (entries ++ [(last, table .header [])])
    | some (table .implied inner) => some (erase entries last ++ [(last, table .header inner)])
    | some _ => none) .header document

/-- Adds a table to an array of tables. -/
def openTables (keys : List String) (last : String) (document : List (String × Toml)) :
    Option (List (String × Toml)) :=
  descendHeader keys (fun _ entries =>
    match get? entries last with
    | none => some (entries ++ [(last, tables [table .header []])])
    | some (tables items) => some (replace entries last (tables (items ++ [table .header []])))
    | some _ => none) .header document

end Toml

end MatchCheck
