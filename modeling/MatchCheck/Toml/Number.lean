import MatchCheck.Toml.Basic

/-!
# Numbers, dates and times of TOML

Integers are decimal, or hexadecimal, octal or binary after a mark; they fit into 64 bits with a
sign. A number with a fraction or an exponent is a float. Underscores may stand between digits.
Dates and times are recognized and checked, but their value is not kept.
-/

namespace MatchCheck.Toml

/-- Digits of a kind at the front, with underscores between them: the digits without underscores,
and what follows. At least one digit is needed, and an underscore must be followed by a digit. -/
def readDigits (isDigit : Char → Bool) : List Char → Option (List Char × List Char)
  | '_' :: _ => none
  | c :: '_' :: d :: cs =>
    if isDigit c && isDigit d then
      (readDigits isDigit (d :: cs)).map fun (ds, rest) => (c :: ds, rest)
    else none
  | c :: cs =>
    if isDigit c then
      match cs with
      | '_' :: _ => none
      | d :: _ =>
        if isDigit d then (readDigits isDigit cs).map fun (ds, rest) => (c :: ds, rest)
        else some ([c], cs)
      | [] => some ([c], [])
    else none
  | [] => none

/-- A hexadecimal digit in either case. -/
def isHexDigit (c : Char) : Bool :=
  c.isDigit || ('a' ≤ c && c ≤ 'f') || ('A' ≤ c && c ≤ 'F')

/-- The value of a digit. -/
def digitValue (c : Char) : Nat :=
  if c.isDigit then c.toNat - '0'.toNat
  else if 'a' ≤ c then c.toNat - 'a'.toNat + 10
  else c.toNat - 'A'.toNat + 10

/-- The value of digits in a base. -/
def ofDigits (base : Nat) (ds : List Char) : Nat :=
  ds.foldl (fun n d => n * base + digitValue d) 0

/-- The sign at the front, if there is one: whether it is a minus, and what follows. -/
def readSign : List Char → Bool × List Char
  | '+' :: cs => (false, cs)
  | '-' :: cs => (true, cs)
  | cs => (false, cs)

/-- Decimal digits without a leading zero, unless it is the only digit. -/
def readWhole : List Char → Option (List Char × List Char)
  | '0' :: cs => some (['0'], cs)
  | cs => readDigits Char.isDigit cs

/-- The least number beyond the integers of 64 bits. -/
def integerLimit : Int := Nat.pow 2 63

/-- An integer, if it fits into 64 bits. -/
def integer? (value : Int) : Option Toml :=
  if -integerLimit ≤ value && value < integerLimit then some (integer value) else none

/-- An integer in another base, behind its mark. -/
def readBased (base : Nat) (isDigit : Char → Bool) (cs : List Char) :
    Option (Toml × List Char) := do
  let (ds, rest) ← readDigits isDigit cs
  return (← integer? (ofDigits base ds), rest)

/-- An integer. -/
def readInteger : List Char → Option (Toml × List Char)
  | '0' :: 'x' :: cs => readBased 16 isHexDigit cs
  | '0' :: 'o' :: cs => readBased 8 (fun c => '0' ≤ c && c ≤ '7') cs
  | '0' :: 'b' :: cs => readBased 2 (fun c => c == '0' || c == '1') cs
  | cs => do
    let (negative, rest) := readSign cs
    let (ds, rest) ← readWhole rest
    let value : Int := ofDigits 10 ds
    return (← integer? (if negative then -value else value), rest)

/-- The fraction of a float: its digits, if there is one. -/
def readFraction : List Char → Option (List Char × List Char)
  | '.' :: cs => readDigits Char.isDigit cs
  | cs => some ([], cs)

/-- The exponent of a float, if there is one. -/
def readExponent : List Char → Option (Option Int × List Char)
  | c :: cs =>
    if c = 'e' || c = 'E' then do
      let (negative, rest) := readSign cs
      let (ds, rest) ← readDigits Char.isDigit rest
      let value : Int := ofDigits 10 ds
      return (some (if negative then -value else value), rest)
    else some (none, c :: cs)
  | [] => some (none, [])

/-- A float: a number with a fraction, an exponent or both. What exceeds the greatest float is
refused. -/
def readFloat (cs : List Char) : Option (Toml × List Char) := do
  let (negative, rest) := readSign cs
  let (whole, rest) ← readWhole rest
  let (fraction, rest) ← readFraction rest
  let (exponent, rest) ← readExponent rest
  if fraction.isEmpty && exponent.isNone then none
  else
    let value := Decimal.toBinary negative (ofDigits 10 (whole ++ fraction))
      (exponent.getD 0 - fraction.length)
    if value = .infinite false then none else return (float value, rest)

/-- A float that is infinite or no number. -/
def readSpecial (cs : List Char) : Option (Toml × List Char) :=
  let (negative, rest) := readSign cs
  match rest with
  | 'i' :: 'n' :: 'f' :: rest => some (float (.infinite negative), rest)
  | 'n' :: 'a' :: 'n' :: rest => some (float .nan, rest)
  | _ => none

/-! ### Dates and times -/

/-- A number of exactly as many digits as asked for. -/
def readCount (count : Nat) (cs : List Char) : Option (Nat × List Char) :=
  let ds := cs.take count
  if ds.length = count && ds.all Char.isDigit then some (ofDigits 10 ds, cs.drop count) else none

/-- What follows a character at the front. -/
def after? (c : Char) : List Char → Option (List Char)
  | d :: cs => if d = c then some cs else none
  | [] => none

/-- The number of days of a month. -/
def daysIn (year month : Nat) : Nat :=
  if month = 2 then
    if year % 4 = 0 && (year % 100 ≠ 0 || year % 400 = 0) then 29 else 28
  else if month = 4 || month = 6 || month = 9 || month = 11 then 30
  else 31

/-- What follows a date. -/
def readDate (cs : List Char) : Option (List Char) := do
  let (year, rest) ← readCount 4 cs
  let (month, rest) ← readCount 2 (← after? '-' rest)
  let (day, rest) ← readCount 2 (← after? '-' rest)
  if 1 ≤ month && month ≤ 12 && 1 ≤ day && day ≤ daysIn year month then some rest else none

/-- What follows the fraction of a second, if there is one. -/
def skipSecondFraction : List Char → List Char
  | '.' :: c :: cs => if c.isDigit then cs.dropWhile Char.isDigit else '.' :: c :: cs
  | cs => cs

/-- What follows a time of day. -/
def readTime (cs : List Char) : Option (List Char) := do
  let (hour, rest) ← readCount 2 cs
  let (minute, rest) ← readCount 2 (← after? ':' rest)
  let (second, rest) ← readCount 2 (← after? ':' rest)
  if hour ≤ 23 && minute ≤ 59 && second ≤ 60 then some (skipSecondFraction rest) else none

/-- What follows the hours and minutes of an offset. -/
def readOffsetTime (cs : List Char) : Option (List Char) := do
  let (hour, rest) ← readCount 2 cs
  let (minute, rest) ← readCount 2 (← after? ':' rest)
  if hour ≤ 23 && minute ≤ 59 then some rest else none

/-- What follows the offset of a time, if there is one. -/
def skipOffset : List Char → List Char
  | 'Z' :: cs => cs
  | 'z' :: cs => cs
  | '+' :: cs => (readOffsetTime cs).getD ('+' :: cs)
  | '-' :: cs => (readOffsetTime cs).getD ('-' :: cs)
  | cs => cs

/-- What follows the time behind a date, if there is one. -/
def skipTimeOfDate (cs : List Char) : List Char :=
  match cs with
  | c :: rest =>
    if c = 'T' || c = 't' || c = ' ' then
      match readTime rest with
      | some rest => skipOffset rest
      | none => cs
    else cs
  | [] => cs

/-- A date, a time, or both. -/
def readDatetime (cs : List Char) : Option (Toml × List Char) :=
  match readDate cs with
  | some rest => some (datetime, skipTimeOfDate rest)
  | none => (readTime cs).map (datetime, ·)

/-- A number, a date or a time. -/
def readNumeric (cs : List Char) : Option (Toml × List Char) :=
  (readDatetime cs).orElse fun _ =>
    (readFloat cs).orElse fun _ => (readSpecial cs).orElse fun _ => readInteger cs

end MatchCheck.Toml
