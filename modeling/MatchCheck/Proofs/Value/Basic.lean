import MatchCheck.Program.Basic
import MatchCheck.Proofs.Signature.Names

/-!
# Values and their types

A match is decided on values, which the analysis itself never builds. A `Value` is a
constructor name applied to values, so a constructor expression is a value as it is
written (`Expr.value`) once its spans are forgotten. Values are finite: a type that
only refers to itself has none.

`Value.HasType` says which values a type of a signature has. At every level the name
is that of a constructor of the type expected there, and the constructor has exactly
the arguments it declares. Names are enough because constructors of one type have
distinct names, and which type is meant is known from the level above.

The field of an undeclared type holds a `foreign` value, which has no constructor to
look at. Such values differ by a mark, so that nothing said about all values of a type
treats them as one.
-/

namespace MatchCheck

/-- A finite value. -/
inductive Value where
  /-- A constructor, by its name, applied to values. -/
  | con (name : String) (args : List Value)
  /-- A value of an undeclared type. -/
  | foreign (mark : Nat)
deriving Repr, Inhabited

mutual

/-- An expression read as a value. -/
def Expr.value : Expr → Value
  | .apply _ name args => .con name.name (Expr.values args)

/-- Expressions read as values, one by one. -/
def Expr.values : List Expr → List Value
  | [] => []
  | e :: es => e.value :: Expr.values es

end

theorem Expr.length_values (es : List Expr) : (Expr.values es).length = es.length := by
  induction es with
  | nil => rfl
  | cons e es ih => rw [Expr.values, List.length_cons, List.length_cons, ih]

/-- The values of a type. -/
inductive Value.HasType (sig : Signature) : TypeDef → Value → Prop
  /-- A constructor without a field stands alone. -/
  | bare {ty : TypeDef} {c : CtorDef} (hc : c ∈ ty.ctors) (hfield : c.field = none) :
      HasType sig ty (.con c.name [])
  /-- A field of a declared type holds a value of that type. -/
  | wrap {ty fieldTy : TypeDef} {c : CtorDef} {v : Value} (hc : c ∈ ty.ctors)
      (hfield : sig.fieldType? c = some fieldTy) (hv : HasType sig fieldTy v) :
      HasType sig ty (.con c.name [v])
  /-- A field of an undeclared type holds any foreign value. -/
  | foreign {ty : TypeDef} {c : CtorDef} (mark : Nat) (hc : c ∈ ty.ctors)
      (hsome : c.field.isSome = true) (hnone : sig.fieldType? c = none) :
      HasType sig ty (.con c.name [.foreign mark])

namespace Signature

/-- A type has at least one value. -/
def HasValue (sig : Signature) (ty : TypeDef) : Prop :=
  ∃ v : Value, v.HasType sig ty

/-- A constructor of the first type has a field of the second. -/
def HasFieldOf (sig : Signature) (ty fieldTy : TypeDef) : Prop :=
  ∃ c ∈ ty.ctors, sig.fieldType? c = some fieldTy

variable {sig : Signature} {c : CtorDef}

/-- A constructor without a field has no field type either. -/
theorem fieldType?_eq_none_of_field (h : c.field = none) : sig.fieldType? c = none := by
  unfold fieldType?
  rw [h]
  rfl

theorem field_isSome_of_fieldType? {fieldTy : TypeDef} (h : sig.fieldType? c = some fieldTy) :
    c.field.isSome = true := by
  obtain ⟨f, hf, -⟩ := Option.bind_eq_some_iff.mp h
  rw [hf]
  rfl

/-- **Three kinds of constructors.** There is no field, or its type is declared, or its
type is not declared. Typing, coverage and resolution all split along these lines. -/
theorem field_cases (sig : Signature) (c : CtorDef) :
    c.field = none ∨ (∃ fieldTy, sig.fieldType? c = some fieldTy) ∨
      (c.field.isSome = true ∧ sig.fieldType? c = none) := by
  -- no field, a field of a declared type, or one of a type that is not declared
  cases hfield : c.field with
  | none => exact Or.inl rfl
  | some f =>
    cases htype : sig.fieldType? c with
    | some fieldTy => exact Or.inr (Or.inl ⟨fieldTy, rfl⟩)
    | none => exact Or.inr (Or.inr ⟨rfl, rfl⟩)

end Signature

/-- **Inversion under a head.** A value headed by a constructor of its type has no argument, or
one of the type of the field, or a foreign one when that type is not declared. -/
theorem Value.HasType.of_con {sig : Signature} {ty : TypeDef} {c : CtorDef} {args : List Value}
    (h : (Value.con c.name args).HasType sig ty) (hsig : sig.Distinct) (hty : ty ∈ sig.types)
    (hc : c ∈ ty.ctors) :
    (c.field = none ∧ args = []) ∨
      (∃ (fieldTy : TypeDef) (v : Value), sig.fieldType? c = some fieldTy ∧
        v.HasType sig fieldTy ∧ args = [v]) ∨
      (c.field.isSome = true ∧ sig.fieldType? c = none ∧
        ∃ mark, args = [Value.foreign mark]) := by
  -- the typing rule has a constructor of its own, which has the name of `c` and so is `c`
  generalize hname : c.name = name at h
  cases h with
  | bare hd hfield =>
    obtain rfl := Signature.eq_of_name_eq hsig hty hc hd hname
    exact Or.inl ⟨hfield, rfl⟩
  | wrap hd hfield hv =>
    obtain rfl := Signature.eq_of_name_eq hsig hty hc hd hname
    exact Or.inr (Or.inl ⟨_, _, hfield, hv, rfl⟩)
  | foreign mark hd hsome hnone =>
    obtain rfl := Signature.eq_of_name_eq hsig hty hc hd hname
    exact Or.inr (Or.inr ⟨hsome, hnone, mark, rfl⟩)

/-- The argument below a head over a declared type is of that type. -/
theorem Value.HasType.arg_of_fieldType? {sig : Signature} {ty fieldTy : TypeDef} {c : CtorDef}
    {v : Value} (h : (Value.con c.name [v]).HasType sig ty) (hsig : sig.Distinct)
    (hty : ty ∈ sig.types) (hc : c ∈ ty.ctors) (hfield : sig.fieldType? c = some fieldTy) :
    v.HasType sig fieldTy := by
  -- of the three ways to have a type, only the second one has a field of a declared type
  obtain ⟨-, hargs⟩ | ⟨fieldTy', v', hfield', hv, hargs⟩ | ⟨-, hnone, -⟩ := h.of_con hsig hty hc
  · exact absurd hargs (by simp)
  · rw [hfield] at hfield'
    obtain rfl := Option.some.inj hfield'
    obtain rfl : v = v' := by simpa using hargs
    exact hv
  · rw [hnone] at hfield
    exact absurd hfield (by simp)

end MatchCheck
