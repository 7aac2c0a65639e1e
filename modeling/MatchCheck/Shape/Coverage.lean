import MatchCheck.Shape.Basic

/-!
# Coverage

Which values of a type do shapes leave out? Shapes cover a type when one of them is `any`, or when
every constructor heads one of them and the arguments under each constructor cover the type of its
field in turn. `Shape.missing` lists what is left out, as shapes of its own; `Shape.useful` decides
whether one more shape adds a value.

A constructor that heads no shape is left out whole, so going down follows only shapes that were
written, and types may refer to themselves. A field of an undeclared type counts as covered as soon
as its constructor is named: its values cannot be told apart.
-/

namespace MatchCheck.Shape

/-- The shape of all values of a constructor. -/
def whole (ty : TypeDef) (c : CtorDef) : Shape :=
  if c.field.isSome then wrap (ty.ref c) any else bare (ty.ref c)

/-- The shapes of the values of a type that the given shapes leave out, in the order in which the
constructors are declared. -/
def missing (sig : Signature) (ty : TypeDef) (shapes : List Shape) : List Shape :=
  if shapes.any isAny then []
  else
    ty.ctors.flatMap fun c =>
      if _h : shapes.any (names (ty.ref c)) then
        match sig.fieldType? c with
        | some fieldTy => (missing sig fieldTy (argsUnder (ty.ref c) shapes)).map (wrap (ty.ref c))
        | none => []
      else [whole ty c]
termination_by totalSize shapes
decreasing_by exact totalSize_argsUnder_lt _h

/-- Whether shapes hold every value of a type. -/
def exhaustive (sig : Signature) (ty : TypeDef) (shapes : List Shape) : Bool :=
  (missing sig ty shapes).isEmpty

/-- Whether a shape holds a value of a type that none of the earlier shapes holds. -/
def useful (sig : Signature) (ty : TypeDef) (earlier : List Shape) : Shape → Bool
  | any => !earlier.any isAny && !exhaustive sig ty earlier
  | bare c => !earlier.any isAny && !earlier.any (names c)
  | wrap c arg =>
    !earlier.any isAny &&
      (!earlier.any (names c) ||
        match (sig.ctor? c).bind sig.fieldType? with
        | some fieldTy => useful sig fieldTy (argsUnder c earlier) arg
        | none => false)

/-- The shapes that hold no value beyond those before them, each with what it was given with. -/
def unreachableFrom {α : Type} (sig : Signature) (ty : TypeDef) (earlier : List Shape) :
    List (α × Shape) → List (α × Shape)
  | [] => []
  | (a, s) :: rest =>
    let later := unreachableFrom sig ty (earlier ++ [s]) rest
    if useful sig ty earlier s then later else (a, s) :: later

end MatchCheck.Shape
