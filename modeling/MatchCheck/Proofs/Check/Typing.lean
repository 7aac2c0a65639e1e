import MatchCheck.Proofs.Check.Order
import MatchCheck.Proofs.Diagnostic.Codes
import MatchCheck.Proofs.Fix.NewArm

/-!
# Resolution decides typing

Which patterns belong to a type is said by one rule (`Pattern.HasType`): a constructor of the type
stands over as many arguments as it takes, and the argument for a field of a declared type belongs
to that type. Nothing is asked of the argument for a field of an undeclared type. The same rule says
which expressions are values of a type (`Expr.HasType`).

A pattern that does not belong to its type has a level at which it stops to, and the outermost such
level is where it is reported (`Pattern.MisfitAt`). Resolution succeeds on the patterns of a type
and on no others (`Signature.hasType_iff_resolve`). What it gives is the pattern itself, up to what
stands in fields of undeclared types (`Signature.pattern_of_hasShape`), and what it reports is the
misfit (`Signature.misfitAt_of_resolve`). For the matched expression nothing is given, and an error
is reported exactly if it is not a value (`Signature.argumentError?_eq_none_iff`).
-/

namespace MatchCheck

/-! ### Typing rules -/

/-- The written patterns that belong to a type. -/
inductive Pattern.HasType (sig : Signature) : TypeDef → Pattern → Prop
  /-- The underscore belongs to every type. -/
  | wildcard {ty : TypeDef} {span : Span} : HasType sig ty (.wildcard span)
  /-- A constructor of the type has as many arguments as it takes, and an argument for a field of a
  declared type belongs to that type. -/
  | ctor {ty : TypeDef} {c : CtorDef} {span : Span} {name : Ident} {args : List Pattern}
      (hc : c ∈ ty.ctors) (hname : c.name = name.name) (harity : args.length = c.arity)
      (hargs : ∀ fieldTy, sig.fieldType? c = some fieldTy → ∀ arg ∈ args, HasType sig fieldTy arg) :
      HasType sig ty (.ctor span name args)

/-- The written expressions that are values of a type. -/
inductive Expr.HasType (sig : Signature) : TypeDef → Expr → Prop
  /-- A constructor of the type has as many arguments as it takes, and an argument for a field of a
  declared type is a value of that type. -/
  | apply {ty : TypeDef} {c : CtorDef} {span : Span} {name : Ident} {args : List Expr}
      (hc : c ∈ ty.ctors) (hname : c.name = name.name) (harity : args.length = c.arity)
      (hargs : ∀ fieldTy, sig.fieldType? c = some fieldTy → ∀ arg ∈ args, HasType sig fieldTy arg) :
      HasType sig ty (.apply span name args)

/-- The outermost level at which a pattern does not belong to its type, by the code of the error and
the span it is reported at. -/
inductive Pattern.MisfitAt (sig : Signature) : TypeDef → Pattern → Code → Span → Prop
  /-- No type has a constructor of the name. -/
  | unknown {ty : TypeDef} {span : Span} {name : Ident} {args : List Pattern}
      (hnone : ∀ t ∈ sig.types, ∀ c ∈ t.ctors, c.name ≠ name.name) :
      MisfitAt sig ty (.ctor span name args) .unknownConstructor name.span
  /-- Only other types have a constructor of the name. -/
  | elsewhere {ty : TypeDef} {span : Span} {name : Ident} {args : List Pattern}
      (hhere : ∀ c ∈ ty.ctors, c.name ≠ name.name)
      (hother : ∃ t ∈ sig.types, ∃ c ∈ t.ctors, c.name = name.name) :
      MisfitAt sig ty (.ctor span name args) .wrongConstructorType name.span
  /-- The constructor of the type takes another number of arguments. -/
  | count {ty : TypeDef} {c : CtorDef} {span : Span} {name : Ident} {args : List Pattern}
      (hc : c ∈ ty.ctors) (hname : c.name = name.name) (harity : args.length ≠ c.arity) :
      MisfitAt sig ty (.ctor span name args) .wrongArgumentCount span
  /-- This level fits, and the argument does not belong to the type of the field. -/
  | argument {ty fieldTy : TypeDef} {c : CtorDef} {span : Span} {name : Ident} {args : List Pattern}
      {arg : Pattern} {code : Code} {place : Span} (hc : c ∈ ty.ctors) (hname : c.name = name.name)
      (harity : args.length = c.arity) (hfield : sig.fieldType? c = some fieldTy)
      (harg : arg ∈ args) (h : MisfitAt sig fieldTy arg code place) :
      MisfitAt sig ty (.ctor span name args) code place

/-- A pattern of a type, with the underscore for what stands in a field of an undeclared type. -/
def Pattern.widened (sig : Signature) (ty : TypeDef) : Pattern → Pattern
  | .ctor span name [arg] =>
    match (ty.ctor? name.name).bind sig.fieldType? with
    | some fieldTy => .ctor span name [arg.widened sig fieldTy]
    | none => .ctor span name [.wildcard arg.span]
  | p => p

theorem CtorDef.arity_of_field_none {c : CtorDef} (h : c.field = none) : c.arity = 0 := by
  rw [arity, h]
  rfl

theorem CtorDef.arity_of_field_isSome {c : CtorDef} (h : c.field.isSome = true) : c.arity = 1 := by
  rw [arity, if_pos h]

namespace Signature

variable {sig : Signature} {ty fieldTy : TypeDef} {c : CtorDef} {p : Pattern} {s : Shape}

theorem ctor?_eq_none_iff {name : String} :
    ty.ctor? name = none ↔ ∀ c ∈ ty.ctors, c.name ≠ name := by
  rw [TypeDef.ctor?, List.find?_eq_none]
  exact forall_congr' fun c => forall_congr' fun _ => by rw [decide_eq_true_iff]

/-- Looking a constructor up in all types finds nothing exactly if no type has the name. -/
theorem ctorsNamed_eq_nil_iff {name : String} :
    sig.ctorsNamed name = [] ↔ ∀ t ∈ sig.types, ∀ c ∈ t.ctors, c.name ≠ name := by
  rw [List.eq_nil_iff_forall_not_mem, Prod.forall]
  simp only [mem_ctorsNamed_iff, not_and]
  exact ⟨fun h t ht c => h t c ht, fun h t c ht => h t ht c⟩

/-! ### Patterns that resolve -/

/-- A pattern that has a shape belongs to the type. -/
theorem hasType_of_hasShape (h : p.HasShape sig ty s) : p.HasType sig ty := by
  induction h with
  | wildcard => exact .wildcard
  | bare hc hfield =>
    refine .ctor (mem_ctors_of_ctor? hc) (name_of_ctor? hc)
      (CtorDef.arity_of_field_none hfield).symm fun fieldTy _ arg harg => ?_
    exact absurd harg List.not_mem_nil
  | @wrap ty fieldTy c span name arg s hc hfield _ ih =>
    have hsome : c.field.isSome = true := field_isSome_of_fieldType? hfield
    refine .ctor (mem_ctors_of_ctor? hc) (name_of_ctor? hc)
      (CtorDef.arity_of_field_isSome hsome).symm fun fieldTy' hfield' arg' harg => ?_
    obtain rfl := Option.some.inj (hfield.symm.trans hfield')
    rwa [List.mem_singleton.mp harg]
  | @foreign ty c span name arg hc hsome hnone =>
    -- the rule asks nothing of this argument, for the field has no type
    refine .ctor (mem_ctors_of_ctor? hc) (name_of_ctor? hc)
      (CtorDef.arity_of_field_isSome hsome).symm fun fieldTy hfield => ?_
    rw [hnone] at hfield
    cases hfield

/-- **A shape is the pattern it was resolved from.** Spans are forgotten, and so is what stands in a
field of an undeclared type. -/
theorem pattern_of_hasShape (h : p.HasShape sig ty s) :
    s.pattern = (p.widened sig ty).move .forget := by
  induction h with
  | wildcard => rfl
  | @bare ty c span name hc hfield =>
    rw [Shape.pattern, TypeDef.ref, name_of_ctor? hc]
    rfl
  | @wrap ty fieldTy c span name arg s hc hfield _ ih =>
    rw [Shape.pattern, TypeDef.ref, name_of_ctor? hc, ih, Pattern.widened, hc, Option.bind_some,
      hfield]
    rfl
  -- the pattern in the field is given up, and widening gives it up too
  | @foreign ty c span name arg hc hsome hnone =>
    rw [Shape.pattern, TypeDef.ref, name_of_ctor? hc, Pattern.widened, hc, Option.bind_some, hnone]
    rfl

/-! ### Patterns that do not resolve -/

/-- A name that is no constructor of the type is reported as one of other types or of none. -/
theorem misfitAt_misplaced {span : Span} {name : Ident} {args : List Pattern}
    (hnone : ty.ctor? name.name = none) :
    Pattern.MisfitAt sig ty (.ctor span name args)
      (sig.misplaced ty name (.unknownCtor name ty)).code name.span := by
  unfold misplaced
  -- the name is known in another type, or nowhere
  split
  · next found hfound =>
    obtain ⟨t, c⟩ := found
    obtain ⟨ht, hc, hname⟩ := mem_ctorsNamed_iff.mp (List.mem_of_mem_head? hfound)
    exact .elsewhere (ctor?_eq_none_iff.mp hnone) ⟨t, ht, c, hc, hname⟩
  · next hempty => exact .unknown (ctorsNamed_eq_nil_iff.mp (List.head?_eq_none_iff.mp hempty))

/-- **Resolution reports the outermost misfit.** -/
theorem misfitAt_of_resolve {ty : TypeDef} {p : Pattern} {e : MatchError}
    (h : sig.resolve ty p = .error e) : p.MisfitAt sig ty e.code e.diagnostic.span := by
  cases p with
  | wildcard span => simp [resolve] at h
  | ctor span name args =>
    obtain ⟨hnone, rfl⟩ | ⟨c, hc, ⟨harity, rfl⟩ | ⟨fieldTy, arg, hfield, rfl, harg⟩⟩ :=
      resolve_ctor_eq_error h
    · rw [span_misplaced rfl]
      exact misfitAt_misplaced hnone
    · exact .count (mem_ctors_of_ctor? hc) (name_of_ctor? hc) harity.symm
    · -- the level fits, and the error comes from the argument
      have hsome : c.field.isSome = true := field_isSome_of_fieldType? hfield
      exact .argument (mem_ctors_of_ctor? hc) (name_of_ctor? hc)
        (CtorDef.arity_of_field_isSome hsome).symm hfield (List.mem_singleton.mpr rfl)
        (misfitAt_of_resolve harg)
termination_by p

/-- A misfit is reported as a name of other types, an argument count or an unknown name. -/
theorem code_of_misfitAt {code : Code} {place : Span} (h : p.MisfitAt sig ty code place) :
    code ∈ [Code.wrongConstructorType, .wrongArgumentCount, .unknownConstructor] := by
  induction h with
  | unknown => decide
  | elsewhere => decide
  | count => decide
  | argument _ _ _ _ _ _ ih => exact ih

/-- A pattern with a misfit does not belong to the type. -/
theorem not_hasType_of_misfitAt (hsig : sig.Distinct) {code : Code} {place : Span}
    (h : p.MisfitAt sig ty code place) (hty : ty ∈ sig.types) : ¬ p.HasType sig ty := by
  induction h with
  | unknown hnone =>
    rintro (_ | ⟨hd, hname, -, -⟩)
    exact hnone _ hty _ hd hname
  | elsewhere hhere _ =>
    rintro (_ | ⟨hd, hname, -, -⟩)
    exact hhere _ hd hname
  | count hc hname harity =>
    -- the typing rule has a constructor of its own, which has the same name
    rintro (_ | ⟨hd, hname', harity', -⟩)
    obtain rfl := eq_of_name_eq hsig hty hc hd (hname.trans hname'.symm)
    exact harity harity'
  | argument hc hname _ hfield harg _ ih =>
    rintro (_ | ⟨hd, hname', -, hargs⟩)
    obtain rfl := eq_of_name_eq hsig hty hc hd (hname.trans hname'.symm)
    exact ih (mem_types_of_fieldType? hfield) (hargs _ hfield _ harg)

/-- **Resolution decides typing.** -/
theorem hasType_iff_resolve (hsig : sig.Distinct) (hty : ty ∈ sig.types) :
    p.HasType sig ty ↔ ∃ s, sig.resolve ty p = .ok s := by
  cases h : sig.resolve ty p with
  | ok s => exact iff_of_true (hasType_of_hasShape (hasShape_of_resolve h)) ⟨s, rfl⟩
  | error e =>
    refine iff_of_false (not_hasType_of_misfitAt hsig (misfitAt_of_resolve h) hty) ?_
    rintro ⟨s, hs⟩
    cases hs

/-! ### The matched expression -/

variable {e : Expr}

/-- Typing at a known head: the number of arguments is right, and so is what stands in the field. -/
theorem hasType_iff_of_head (hsig : sig.Distinct) (hty : ty ∈ sig.types) (hc : c ∈ ty.ctors)
    (hname : c.name = e.name.name) :
    e.HasType sig ty ↔ e.args.length = c.arity ∧
      ∀ fieldTy, sig.fieldType? c = some fieldTy → ∀ arg ∈ e.args, arg.HasType sig fieldTy := by
  obtain ⟨span, name, args⟩ := e
  refine ⟨?_, fun ⟨harity, hargs⟩ => .apply hc hname harity hargs⟩
  rintro ⟨hd, hname', harity, hargs⟩
  obtain rfl := eq_of_name_eq hsig hty hc hd (hname.trans hname'.symm)
  exact ⟨harity, hargs⟩

/-- **An expression is found right exactly if it is a value of its type.** -/
theorem argumentError?_eq_none_iff (hsig : sig.Distinct) (hty : ty ∈ sig.types)
    (hc : c ∈ ty.ctors) (hname : c.name = e.name.name) :
    sig.argumentError? c e = none ↔ e.HasType sig ty := by
  fun_induction argumentError? sig c e generalizing ty with
  | case1 c span name hfield =>
    refine iff_of_true rfl ((hasType_iff_of_head hsig hty hc hname).mpr ⟨?_, ?_⟩)
    · exact (CtorDef.arity_of_field_none hfield).symm
    · exact fun fieldTy _ arg harg => absurd harg List.not_mem_nil
  | case2 c span name field arg hfield fieldTy htype d hd ih =>
    have hfieldTy : sig.fieldType? c = some fieldTy := (fieldType?_of_field hfield).trans htype
    have harity : c.arity = 1 :=
      CtorDef.arity_of_field_isSome (field_isSome_of_fieldType? hfieldTy)
    -- the argument is headed by `d`, a constructor of the field's type, and is a value by induction
    rw [ih (mem_types_of_type? htype) (mem_ctors_of_ctor? hd) (name_of_ctor? hd),
      hasType_iff_of_head hsig hty hc hname, harity, hfieldTy]
    simp [Expr.args]
  | case3 c span name field arg hfield fieldTy htype hd =>
    -- the argument would be headed by a constructor of the field's type
    have hfieldTy : sig.fieldType? c = some fieldTy := (fieldType?_of_field hfield).trans htype
    refine iff_of_false (Option.some_ne_none _) fun h => ?_
    have harg := ((hasType_iff_of_head hsig hty hc hname).mp h).2 fieldTy hfieldTy arg
      (List.mem_singleton.mpr rfl)
    cases harg with
    | apply hd' hname' _ _ => exact ctor?_eq_none_iff.mp hd _ hd' hname'
  | case4 c span name field arg hfield htype =>
    have hnone : sig.fieldType? c = none := (fieldType?_of_field hfield).trans htype
    refine iff_of_true rfl ((hasType_iff_of_head hsig hty hc hname).mpr ⟨?_, ?_⟩)
    · exact (CtorDef.arity_of_field_isSome (by rw [hfield]; rfl)).symm
    · intro fieldTy hfieldTy
      rw [hnone] at hfieldTy
      cases hfieldTy
  | case5 c span name args hbare hwrap =>
    -- whatever the arguments are, there are too many or too few of them
    refine iff_of_false (Option.some_ne_none _) fun h => ?_
    exact arity_ne_length hbare hwrap ((hasType_iff_of_head hsig hty hc hname).mp h).1.symm

theorem code_misplaced (expected : TypeDef) (name : Ident) (unknown : MatchError) :
    (sig.misplaced expected name unknown).code = .wrongConstructorType ∨
      (sig.misplaced expected name unknown).code = unknown.code := by
  unfold misplaced
  split
  · exact .inl rfl
  · exact .inr rfl

/-- A wrong expression is reported as a name of other types, an unknown name or an argument count.
-/
theorem code_argumentError? {err : MatchError} (h : sig.argumentError? c e = some err) :
    err.code ∈ [Code.wrongConstructorType, .unknownIdentifier, .wrongArgumentCount] := by
  fun_induction argumentError? sig c e with
  | case1 => cases h
  -- only the argument is wrong, and it is reported for itself
  | case2 _ _ _ _ _ _ _ _ _ _ ih => exact ih h
  | case3 c span name field arg hfield fieldTy htype hd =>
    obtain rfl := Option.some.inj h
    rcases sig.code_misplaced fieldTy arg.name (.unknownArgument arg.name fieldTy) with h | h
    · rw [h]
      exact List.mem_cons_self
    · rw [h]
      exact List.mem_cons_of_mem _ List.mem_cons_self
  | case4 => cases h
  | case5 =>
    obtain rfl := Option.some.inj h
    simp [MatchError.code]

/-! ### The match -/

variable {m : MatchExpr}

theorem resolveMatch_of_error {err : MatchError} (h : sig.scrutinee m.scrutinee = .error err) :
    sig.resolveMatch m = (none, [err]) := by
  rw [resolveMatch, h]

theorem resolveMatch_of_ok (h : sig.scrutinee m.scrutinee = .ok (ty, c)) :
    sig.resolveMatch m = (some ⟨ty, sig.resolvedArms ty m.arms⟩,
      (sig.argumentError? c m.scrutinee).toList ++ sig.armErrors ty m.arms) := by
  rw [resolveMatch, h]

end Signature

end MatchCheck
