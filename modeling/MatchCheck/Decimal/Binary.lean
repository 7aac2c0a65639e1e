/-!
# Binary floating point from decimals

A double-precision number is a sign, a significand below `2 ^ 53` and a power of two, or else it is
infinite or no number. A decimal literal stands for the double nearest to it, and of two that are
equally near for the one with the even significand. All of it is exact integer arithmetic.
-/

namespace MatchCheck.Decimal

/-- A double-precision number; a finite one is `significand * 2 ^ exponent` with a sign. -/
inductive Binary where
  | finite (negative : Bool) (significand : Nat) (exponent : Int)
  | infinite (negative : Bool)
  | nan
deriving DecidableEq, Repr

/-- The quotient of two numbers, rounded to the nearest, and to the even one of two. -/
def divNearestEven (num den : Nat) : Nat :=
  let q := num / den
  let r := num % den
  if 2 * r < den then q
  else if den < 2 * r then q + 1
  else if q % 2 = 0 then q else q + 1

/-- A power of a base with an integer exponent, as a fraction. -/
def powFraction (base : Nat) (exponent : Int) : Nat × Nat :=
  if 0 ≤ exponent then (Nat.pow base exponent.toNat, 1) else (1, Nat.pow base (-exponent).toNat)

/-- The least number of 54 bits, which is no significand any more. -/
def significandLimit : Nat := Nat.pow 2 53

/-- The least significand of 53 bits. -/
def leastFull : Nat := Nat.pow 2 52

/-- The least exponent of a double. -/
def minExponent : Int := -1074

/-- The greatest exponent of a double. -/
def maxExponent : Int := 971

/-- The double nearest to a positive fraction, without its sign. The exponent is chosen so that the
significand has 53 bits, unless that falls below the least exponent. -/
def nearest (negative : Bool) (num den : Nat) : Binary :=
  let estimate : Int := max minExponent ((num.log2 : Int) - (den.log2 : Int) - 53)
  let quotient (e : Int) : Nat × Nat :=
    let (p, q) := powFraction 2 e
    (num * q, den * p)
  let fits (e : Int) : Bool :=
    let (n, d) := quotient e
    n / d < significandLimit
  let exponent := if fits estimate then estimate else estimate + 1
  let (n, d) := quotient exponent
  let significand := divNearestEven n d
  let (significand, exponent) :=
    if significand = significandLimit then (leastFull, exponent + 1) else (significand, exponent)
  if maxExponent < exponent then .infinite negative else .finite negative significand exponent

/-- The double that `digits * 10 ^ exponent` stands for. Numbers beyond the range are recognized by
their size first, so that no huge power is formed. -/
def toBinary (negative : Bool) (digits : Nat) (exponent : Int) : Binary :=
  let size : Int := ((Nat.toDigits 10 digits).length : Int) + exponent
  if digits = 0 || size < -330 then .finite negative 0 minExponent
  else if 310 < size then .infinite negative
  else
    let (p, q) := powFraction 10 exponent
    nearest negative (digits * p) q

end MatchCheck.Decimal
