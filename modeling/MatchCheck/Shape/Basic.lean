import MatchCheck.Signature.Basic

/-!
# Shapes

A shape describes a set of values: any value at all, the value of a constructor without argument,
or the values of a constructor over an argument of some shape. The patterns of a match resolve to
shapes, and so do the cases that a match misses: both are read and printed alike.
-/

namespace MatchCheck

/-- A set of values, as far as a pattern can tell them apart. -/
inductive Shape where
  | any
  | bare (c : CtorRef)
  | wrap (c : CtorRef) (arg : Shape)
deriving DecidableEq, Repr, Inhabited

namespace Shape

/-- A shape as it is written. -/
def render : Shape → String
  | any => "_"
  | bare c => c.name
  | wrap c arg => c.name ++ "(" ++ arg.render ++ ")"

/-- Whether a shape holds every value. -/
def isAny : Shape → Bool
  | any => true
  | _ => false

/-- Whether a shape is headed by the given constructor. -/
def names (c : CtorRef) : Shape → Bool
  | any => false
  | bare d => d = c
  | wrap d _ => d = c

/-- The argument of a shape that is headed by the given constructor. -/
def argUnder? (c : CtorRef) : Shape → Option Shape
  | wrap d arg => if d = c then some arg else none
  | _ => none

/-- The arguments of the shapes that are headed by the given constructor. -/
def argsUnder (c : CtorRef) (shapes : List Shape) : List Shape :=
  shapes.filterMap (argUnder? c)

/-- The number of steps a shape is written in. -/
def size : Shape → Nat
  | any => 1
  | bare _ => 1
  | wrap _ arg => arg.size + 1

/-- The sizes of shapes together. -/
def totalSize : List Shape → Nat
  | [] => 0
  | s :: shapes => s.size + totalSize shapes

/-- The number of argument lists a shape nests. -/
def depth : Shape → Nat
  | any => 0
  | bare _ => 0
  | wrap _ arg => arg.depth + 1

@[simp] theorem argsUnder_nil (c : CtorRef) : argsUnder c [] = [] := rfl

@[simp] theorem totalSize_nil : totalSize [] = 0 := rfl

@[simp] theorem totalSize_cons (s : Shape) (shapes : List Shape) :
    totalSize (s :: shapes) = s.size + totalSize shapes := rfl

theorem size_pos (s : Shape) : 0 < s.size := by
  cases s <;> simp [size]

theorem size_of_argUnder? {s arg : Shape} {c : CtorRef} (h : s.argUnder? c = some arg) :
    s.size = arg.size + 1 := by
  cases s with
  | wrap d arg' =>
    simp only [argUnder?] at h
    split at h
    · cases h
      rfl
    · cases h
  | _ => cases h

theorem totalSize_argsUnder_cons_lt {c : CtorRef} {shapes : List Shape} (s : Shape)
    (h : totalSize (argsUnder c shapes) ≤ totalSize shapes) :
    totalSize (argsUnder c (s :: shapes)) < totalSize (s :: shapes) := by
  cases hs : s.argUnder? c with
  | none =>
    have hpos := s.size_pos
    simp only [argsUnder, List.filterMap_cons, hs, totalSize_cons] at h ⊢
    omega
  | some arg =>
    have hsize := size_of_argUnder? hs
    simp only [argsUnder, List.filterMap_cons, hs, totalSize_cons] at h ⊢
    omega

theorem totalSize_argsUnder_le (c : CtorRef) (shapes : List Shape) :
    totalSize (argsUnder c shapes) ≤ totalSize shapes := by
  induction shapes with
  | nil => simp
  | cons s shapes ih => exact Nat.le_of_lt (totalSize_argsUnder_cons_lt s ih)

/-- Going below a constructor makes shapes smaller, as soon as one of them is headed by it. -/
theorem totalSize_argsUnder_lt {c : CtorRef} {shapes : List Shape}
    (h : shapes.any (names c) = true) : totalSize (argsUnder c shapes) < totalSize shapes := by
  cases shapes with
  | nil => simp at h
  | cons s shapes => exact totalSize_argsUnder_cons_lt s (totalSize_argsUnder_le c shapes)

end Shape

end MatchCheck
