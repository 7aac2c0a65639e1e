import MatchCheck.Proofs.Value.Matching
import MatchCheck.Shape.Resolve

/-!
# Resolution keeps the meaning of what is written

`Pattern.HasShape` says which shape a pattern has at a type, level by level, and resolution
finds it (`Signature.hasShape_of_resolve`). The shape fits the type
(`Signature.fits_of_hasShape`). In a signature whose fields all have declared types it holds
exactly the values that the pattern accepts as it is written (`Signature.accepts_eq_holds`);
below a field of an undeclared type the pattern is widened to `any`.

The matched expression is resolved by its head alone, and what stands below the head is
checked afterwards. If nothing is wrong with it, the expression is a value of the type
(`Signature.hasType_of_argumentError?`), and of no other type, since the head was the only
constructor of its name that takes as many arguments (`Signature.eq_of_hasType_value`).
-/

namespace MatchCheck

/-- The shape that a written pattern has at a type. -/
inductive Pattern.HasShape (sig : Signature) : TypeDef → Pattern → Shape → Prop
  /-- The underscore has the shape of all values. -/
  | wildcard {ty : TypeDef} {span : Span} : HasShape sig ty (.wildcard span) .any
  /-- A constructor without a field is written without arguments. -/
  | bare {ty : TypeDef} {c : CtorDef} {span : Span} {name : Ident}
      (hc : ty.ctor? name.name = some c) (hfield : c.field = none) :
      HasShape sig ty (.ctor span name []) (.bare (ty.ref c))
  /-- For a field of a declared type a pattern of that type is written. -/
  | wrap {ty fieldTy : TypeDef} {c : CtorDef} {span : Span} {name : Ident} {arg : Pattern}
      {s : Shape} (hc : ty.ctor? name.name = some c)
      (hfield : sig.fieldType? c = some fieldTy) (harg : HasShape sig fieldTy arg s) :
      HasShape sig ty (.ctor span name [arg]) (.wrap (ty.ref c) s)
  /-- For a field of an undeclared type any pattern is written. -/
  | foreign {ty : TypeDef} {c : CtorDef} {span : Span} {name : Ident} {arg : Pattern}
      (hc : ty.ctor? name.name = some c) (hsome : c.field.isSome = true)
      (hnone : sig.fieldType? c = none) :
      HasShape sig ty (.ctor span name [arg]) (.wrap (ty.ref c) .any)

namespace Signature

/-- Every field is of a declared type. -/
def Closed (sig : Signature) : Prop :=
  ∀ ty ∈ sig.types, ∀ c ∈ ty.ctors, c.field.isSome = true →
    ∃ fieldTy, sig.fieldType? c = some fieldTy

variable {sig : Signature} {ty fieldTy : TypeDef} {c : CtorDef} {p : Pattern} {s : Shape}

/-- The type of a field is looked up by the name that is written for it. -/
theorem fieldType?_of_field {field : String} (h : c.field = some field) :
    sig.fieldType? c = sig.type? field := by
  unfold fieldType?
  rw [h]
  rfl

/-! ### Patterns -/

/-- One level of resolution: a constructor pattern that resolves is bare, or its only argument
resolves against the type of the field, or the type of the field is not declared. -/
theorem resolve_ctor_eq_ok {span : Span} {name : Ident} {args : List Pattern}
    (h : sig.resolve ty (.ctor span name args) = .ok s) :
    ∃ c, ty.ctor? name.name = some c ∧
      ((c.field = none ∧ args = [] ∧ s = .bare (ty.ref c)) ∨
        (∃ fieldTy arg s', sig.fieldType? c = some fieldTy ∧ args = [arg] ∧
          sig.resolve fieldTy arg = .ok s' ∧ s = .wrap (ty.ref c) s') ∨
        (c.field.isSome = true ∧ sig.fieldType? c = none ∧ (∃ arg, args = [arg]) ∧
          s = .wrap (ty.ref c) .any)) := by
  -- the branches that give no error: no field and no argument, or one of each
  rw [resolve] at h
  split at h
  · exact absurd h (by simp)
  · next c hc =>
    refine ⟨c, hc, ?_⟩
    split at h
    · next hfield => exact Or.inl ⟨hfield, rfl, (Except.ok.inj h).symm⟩
    · next field arg hfield =>
      have htype : sig.fieldType? c = sig.type? field := fieldType?_of_field hfield
      split at h
      · next fieldTy hsome =>
        cases harg : sig.resolve fieldTy arg with
        | error e =>
          rw [harg] at h
          exact absurd h (by simp [Except.map])
        | ok s' =>
          rw [harg] at h
          exact Or.inr (Or.inl
            ⟨fieldTy, arg, s', htype.trans hsome, rfl, harg, (Except.ok.inj h).symm⟩)
      · next hnone =>
        refine Or.inr (Or.inr ⟨?_, htype.trans hnone, ⟨arg, rfl⟩, (Except.ok.inj h).symm⟩)
        rw [hfield]
        rfl
    · exact absurd h (by simp)

/-- **Resolution finds the shape of a pattern.** -/
theorem hasShape_of_resolve (h : sig.resolve ty p = .ok s) : p.HasShape sig ty s := by
  -- the shape gets smaller with every level that is resolved
  induction s generalizing ty p with
  | any =>
    cases p with
    | wildcard span => exact .wildcard
    | ctor span name args =>
      obtain ⟨c, -, ⟨-, -, heq⟩ | ⟨_, _, _, -, -, -, heq⟩ | ⟨-, -, -, heq⟩⟩ := resolve_ctor_eq_ok h
      · exact absurd heq (by simp)
      · exact absurd heq (by simp)
      · exact absurd heq (by simp)
  | bare r =>
    cases p with
    | wildcard span => exact absurd h (by simp [resolve])
    | ctor span name args =>
      obtain ⟨c, hc, ⟨hfield, rfl, heq⟩ | ⟨_, _, _, -, -, -, heq⟩ | ⟨-, -, -, heq⟩⟩ :=
        resolve_ctor_eq_ok h
      · rw [heq]
        exact .bare hc hfield
      · exact absurd heq (by simp)
      · exact absurd heq (by simp)
  | wrap r arg ih =>
    cases p with
    | wildcard span => exact absurd h (by simp [resolve])
    | ctor span name args =>
      obtain ⟨c, hc, ⟨-, -, heq⟩ | ⟨fieldTy, p', s', hfield, rfl, harg, heq⟩ |
        ⟨hsome, hnone, ⟨p', rfl⟩, heq⟩⟩ := resolve_ctor_eq_ok h
      · exact absurd heq (by simp)
      · obtain ⟨rfl, rfl⟩ := Shape.wrap.inj heq
        exact .wrap hc hfield (ih harg)
      · rw [heq]
        exact .foreign hc hsome hnone

/-- **Resolved patterns fit.** -/
theorem fits_of_hasShape (h : p.HasShape sig ty s) : s.Fits sig ty := by
  induction h with
  | wildcard => exact .any
  | bare hc hfield => exact .bare (mem_ctors_of_ctor? hc) hfield
  | wrap hc hfield harg ih => exact .wrap (mem_ctors_of_ctor? hc) hfield ih
  | foreign hc hsome hnone => exact .foreign (mem_ctors_of_ctor? hc) hsome hnone

/-- **Resolution keeps the accepted values.** -/
theorem accepts_eq_holds (hclosed : sig.Closed) (hty : ty ∈ sig.types)
    (h : p.HasShape sig ty s) (v : Value) : p.accepts v = s.holds v := by
  induction h generalizing v with
  | wildcard =>
    rw [Pattern.accepts]
    rfl
  | @bare ty c span name hc hfield =>
    have hname : c.name = name.name := name_of_ctor? hc
    -- only a value without arguments gets past the number of arguments
    rcases v with ⟨head, _ | ⟨u, us⟩⟩ | mark
    · simp [Pattern.accepts, Pattern.acceptsAll, Shape.holds, TypeDef.ref, hname]
    · simp [Pattern.accepts, Pattern.acceptsAll, Shape.holds]
    · simp [Pattern.accepts, Shape.holds]
  | @wrap ty fieldTy c span name arg s hc hfield harg ih =>
    have hname : c.name = name.name := name_of_ctor? hc
    have hu : ∀ u, arg.accepts u = s.holds u := ih (mem_types_of_fieldType? hfield)
    rcases v with ⟨head, _ | ⟨u, _ | ⟨u', us⟩⟩⟩ | mark
    · simp [Pattern.accepts, Pattern.acceptsAll, Shape.holds]
    · simp [Pattern.accepts, Pattern.acceptsAll, Shape.holds, TypeDef.ref, hname, hu]
    · simp [Pattern.accepts, Pattern.acceptsAll, Shape.holds]
    · simp [Pattern.accepts, Shape.holds]
  | @foreign ty c span name arg hc hsome hnone =>
    -- the field would be of an undeclared type
    obtain ⟨fieldTy, hfield⟩ := hclosed ty hty c (mem_ctors_of_ctor? hc) hsome
    rw [hnone] at hfield
    exact absurd hfield (by simp)

/-! ### Arms -/

section Arms

variable {arm : Arm}

theorem resolvedArms_cons_of_ok (h : sig.resolve ty arm.pattern = .ok s) (arms : List Arm) :
    sig.resolvedArms ty (arm :: arms) = (arm, s) :: sig.resolvedArms ty arms := by
  simp [resolvedArms, h, Except.toOption]

theorem resolvedArms_cons_of_error {e : MatchError} (h : sig.resolve ty arm.pattern = .error e)
    (arms : List Arm) : sig.resolvedArms ty (arm :: arms) = sig.resolvedArms ty arms := by
  simp [resolvedArms, h, Except.toOption]

theorem armErrors_cons_of_ok (h : sig.resolve ty arm.pattern = .ok s) (arms : List Arm) :
    sig.armErrors ty (arm :: arms) = sig.armErrors ty arms := by
  simp [armErrors, h]

theorem armErrors_cons_of_error {e : MatchError} (h : sig.resolve ty arm.pattern = .error e)
    (arms : List Arm) : sig.armErrors ty (arm :: arms) = e :: sig.armErrors ty arms := by
  simp [armErrors, h]

end Arms

/-! ### The matched expression -/

variable {e : Expr}

/-- **An expression without errors is a value.** -/
theorem hasType_of_argumentError? (hclosed : sig.Closed) (hty : ty ∈ sig.types)
    (hc : c ∈ ty.ctors) (hname : c.name = e.name.name) (h : sig.argumentError? c e = none) :
    e.value.HasType sig ty := by
  -- along the chain of arguments, with the constructor and the type that each is checked against
  fun_induction argumentError? sig c e generalizing ty with
  | case1 c span name hfield =>
    change (Value.con name.name []).HasType sig ty
    rw [← show c.name = name.name from hname]
    exact .bare hc hfield
  | case2 c span name field arg hfield fieldTy htype d hd ih =>
    change (Value.con name.name [arg.value]).HasType sig ty
    rw [← show c.name = name.name from hname]
    refine .wrap hc ((fieldType?_of_field hfield).trans htype) ?_
    exact ih (mem_types_of_type? htype) (mem_ctors_of_ctor? hd) (name_of_ctor? hd) h
  | case3 c span name field arg hfield fieldTy htype hd => exact absurd h (by simp)
  | case4 c span name field arg hfield htype =>
    -- the field would be of an undeclared type
    obtain ⟨fieldTy, hsome⟩ := hclosed ty hty c hc (by rw [hfield]; rfl)
    rw [fieldType?_of_field hfield, htype] at hsome
    exact absurd hsome (by simp)
  | case5 c span name args hbare hwrap => exact absurd h (by simp)

/-- A type that has an expression as a value has a constructor of its name and arity. -/
theorem exists_ctor_of_hasType_value (h : e.value.HasType sig ty) :
    ∃ c ∈ ty.ctors, c.name = e.name.name ∧ c.arity = e.args.length := by
  obtain ⟨span, name, args⟩ := e
  have hlength : (Expr.values args).length = (Expr.apply span name args).args.length :=
    Expr.length_values args
  -- arity and number of arguments agree in each of the three ways to have a type
  generalize hvalue : (Expr.apply span name args).value = v at h
  cases h with
  | @bare _ c hc hfield =>
    obtain ⟨hname, hargs⟩ := Value.con.inj hvalue
    refine ⟨c, hc, hname.symm, ?_⟩
    rw [hargs] at hlength
    simpa [CtorDef.arity, hfield] using hlength
  | @wrap _ fieldTy c v hc hfield hv =>
    obtain ⟨hname, hargs⟩ := Value.con.inj hvalue
    refine ⟨c, hc, hname.symm, ?_⟩
    rw [hargs] at hlength
    simpa [CtorDef.arity, field_isSome_of_fieldType? hfield] using hlength
  | @foreign _ c mark hc hsome hnone =>
    obtain ⟨hname, hargs⟩ := Value.con.inj hvalue
    refine ⟨c, hc, hname.symm, ?_⟩
    rw [hargs] at hlength
    simpa [CtorDef.arity, hsome] using hlength

/-- The head of a matched expression is the only candidate. -/
theorem candidates_of_scrutinee {found : TypeDef × CtorDef} (h : sig.scrutinee e = .ok found) :
    sig.candidates e = [found] := by
  unfold scrutinee at h
  split at h
  · exact absurd h (by simp)
  · next hfound => rw [hfound, Except.ok.inj h]
  · exact absurd h (by simp)

/-- And it is a constructor of its type with the name that is written. -/
theorem mem_of_scrutinee (h : sig.scrutinee e = .ok (ty, c)) :
    ty ∈ sig.types ∧ c ∈ ty.ctors ∧ c.name = e.name.name := by
  have hmem : (ty, c) ∈ sig.candidates e := by
    rw [candidates_of_scrutinee h]
    exact List.mem_singleton.mpr rfl
  simp only [candidates] at hmem
  -- candidates are chosen by arity, unless none has the right one
  split at hmem
  · exact mem_ctorsNamed_iff.mp hmem
  · exact mem_ctorsNamed_iff.mp (List.mem_filter.mp hmem).1

/-- **The type of a matched expression is the only one.** Whatever type has the expression as a
value has the head among its constructors, and then the head is a candidate. -/
theorem eq_of_hasType_value {ty' : TypeDef} (h : sig.scrutinee e = .ok (ty, c))
    (hty' : ty' ∈ sig.types) (hv : e.value.HasType sig ty') : ty' = ty := by
  obtain ⟨d, hd, hname, harity⟩ := exists_ctor_of_hasType_value hv
  have hnamed : (ty', d) ∈ sig.ctorsNamed e.name.name := mem_ctorsNamed_iff.mpr ⟨hty', hd, hname⟩
  have hcandidates := candidates_of_scrutinee h
  simp only [candidates] at hcandidates
  split at hcandidates
  · next hempty =>
    -- the constructor of the other type takes as many arguments as are written
    rw [List.isEmpty_iff, List.filter_eq_nil_iff] at hempty
    exact absurd harity (by simpa using hempty _ hnamed)
  · have hmem : (ty', d) ∈ [(ty, c)] := by
      rw [← hcandidates]
      exact List.mem_filter.mpr ⟨hnamed, by simpa using harity⟩
    exact (Prod.mk.inj (List.mem_singleton.mp hmem)).1

end Signature

end MatchCheck
