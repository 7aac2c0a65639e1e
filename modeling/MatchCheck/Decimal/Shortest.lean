import MatchCheck.Decimal.Binary

/-!
# Shortest decimals

A double is written with the fewest decimal digits that read back as it, and of those with the ones
nearest to it, where a tie goes away from zero. The decimals that read back as a double form an
interval around it, whose ends belong to it when the significand is even. The grids of decimals are
tried from coarse to fine, and on each grid the two neighbours of the double.
-/

namespace MatchCheck.Decimal

/-- A decimal: digits and a power of ten. -/
structure Scaled where
  digits : Nat
  exponent : Int
deriving DecidableEq, Repr

/-- A double and the interval around it in quarters of the unit of its significand: what it is, the
lower end, the upper end, and whether the ends belong to the interval. -/
def quarters (significand : Nat) (exponent : Int) : Nat × Nat × Nat × Bool :=
  let value := 4 * significand
  let low := if significand = leastFull && minExponent < exponent then value - 1 else value - 2
  (value, low, value + 2, significand % 2 = 0)

/-- The decimal on the grid of the given power of ten that is nearest to a double and reads back as
it, if there is one. Of two that are equally near it is the greater. -/
def onGrid? (significand : Nat) (exponent grid : Int) : Option Scaled :=
  let (value, low, high, closed) := quarters significand exponent
  let (twos, halves) := powFraction 2 (exponent - 2)
  let (tens, tenths) := powFraction 10 grid
  -- A quarter count `x` and a grid count `n` are compared as `x * unit` and `n * step`.
  let unit := twos * tenths
  let step := tens * halves
  let below := value * unit / step
  let readsBack (n : Nat) : Bool :=
    0 < n &&
      if closed then low * unit ≤ n * step && n * step ≤ high * unit
      else low * unit < n * step && n * step < high * unit
  let candidates := [below, below + 1].filter readsBack
  let distance (n : Nat) : Nat := max (n * step) (value * unit) - min (n * step) (value * unit)
  match candidates with
  | [] => none
  | [n] => some ⟨n, grid⟩
  | n :: m :: _ =>
    if distance n < distance m then some ⟨n, grid⟩ else some ⟨m, grid⟩

/-- The powers of ten of the grids that can hold a double, from coarse to fine. -/
def grids : List Int :=
  (List.range 660).map fun (i : Nat) => 310 - (i : Int)

/-- The shortest decimal that reads back as a double. -/
def shortest (significand : Nat) (exponent : Int) : Scaled :=
  if significand = 0 then ⟨0, 0⟩
  else (grids.findSome? (onGrid? significand exponent)).getD ⟨significand, exponent⟩

/-- A decimal in positional notation, with at least one digit on each side of the point. -/
def positional (d : Scaled) : String :=
  let digits := Nat.toDigits 10 d.digits
  if 0 ≤ d.exponent then
    String.ofList (digits ++ List.replicate d.exponent.toNat '0' ++ ['.', '0'])
  else
    let places := (-d.exponent).toNat
    let padded := List.replicate (places + 1 - digits.length) '0' ++ digits
    let whole := padded.length - places
    String.ofList (padded.take whole ++ '.' :: padded.drop whole)

/-- A double in positional notation. -/
def Binary.text : Binary → String
  | .finite negative significand exponent =>
    (if negative then "-" else "") ++ positional (shortest significand exponent)
  | .infinite negative => if negative then "-inf" else "inf"
  | .nan => "NaN"

end MatchCheck.Decimal
