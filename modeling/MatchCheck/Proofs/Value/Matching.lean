import MatchCheck.Proofs.Value.Basic
import MatchCheck.Shape.Coverage

/-!
# Which values a shape holds

`Shape.holds` decides whether a value is of a shape, by looking at names and arguments
alone, and `Pattern.accepts` does the same for a pattern as it is written. `Shape.Fits`
says that a shape belongs to a type: at every level it names a constructor of the type
expected there, it has an argument exactly when the constructor has a field, and below a
field of an undeclared type it is `any`. Resolved patterns are such shapes.

What is used of `Fits` afterwards is one inversion, `Fits.of_names`: a fitting shape that
is headed by a constructor is one of three, depending on the constructor's field. It gives
the three readings of "the shape holds a value headed by this constructor":
without a field, or with a field of an undeclared type, this only asks for the head
(`Fits.holds_bare`, `Fits.holds_foreign`); with a field of a declared type it asks the
argument below the head (`Fits.holds_wrap`). Over a list of shapes the last one is what
lets coverage go down into the arguments (`any_holds_wrap`).
-/

namespace MatchCheck

mutual

/-- Whether a written pattern accepts a value: the names agree, and so do the arguments in number
and one by one. -/
def Pattern.accepts : Pattern → Value → Bool
  | .wildcard _, _ => true
  | .ctor _ name args, .con head vs => decide (head = name.name) && Pattern.acceptsAll args vs
  | .ctor _ _ _, .foreign _ => false

/-- Whether written patterns accept values one by one. -/
def Pattern.acceptsAll : List Pattern → List Value → Bool
  | [], [] => true
  | p :: ps, v :: vs => p.accepts v && Pattern.acceptsAll ps vs
  | [], _ :: _ => false
  | _ :: _, [] => false

end

namespace Shape

/-- Whether a value is of a shape. -/
def holds : Shape → Value → Bool
  | any, _ => true
  | bare c, .con head [] => head = c.name
  | wrap c arg, .con head [v] => decide (head = c.name) && arg.holds v
  | _, _ => false

/-- The shapes that belong to a type. -/
inductive Fits (sig : Signature) : TypeDef → Shape → Prop
  /-- Every type has the shape of all its values. -/
  | any {ty : TypeDef} : Fits sig ty any
  /-- A constructor without a field stands alone. -/
  | bare {ty : TypeDef} {c : CtorDef} (hc : c ∈ ty.ctors) (hfield : c.field = none) :
      Fits sig ty (bare (ty.ref c))
  /-- Below a field of a declared type stands a shape of that type. -/
  | wrap {ty fieldTy : TypeDef} {c : CtorDef} {arg : Shape} (hc : c ∈ ty.ctors)
      (hfield : sig.fieldType? c = some fieldTy) (harg : Fits sig fieldTy arg) :
      Fits sig ty (wrap (ty.ref c) arg)
  /-- Below a field of an undeclared type nothing is told apart. -/
  | foreign {ty : TypeDef} {c : CtorDef} (hc : c ∈ ty.ctors) (hsome : c.field.isSome = true)
      (hnone : sig.fieldType? c = none) : Fits sig ty (wrap (ty.ref c) Shape.any)

/-! ### Reading a shape at a value -/

@[simp] theorem holds_any (v : Value) : any.holds v = true := rfl

@[simp] theorem holds_bare_iff (c : CtorRef) (v : Value) :
    (bare c).holds v = true ↔ v = .con c.name [] := by
  cases v with
  | foreign mark => simp [holds]
  | con head args => cases args <;> simp [holds]

@[simp] theorem holds_wrap_con (c : CtorRef) (arg : Shape) (head : String) (v : Value) :
    (wrap c arg).holds (.con head [v]) = (decide (head = c.name) && arg.holds v) := rfl

/-- A head over an argument holds the values with that head whose argument is held. -/
@[simp] theorem holds_wrap_iff (c : CtorRef) (arg : Shape) (v : Value) :
    (wrap c arg).holds v = true ↔ ∃ u, v = .con c.name [u] ∧ arg.holds u = true := by
  cases v with
  | foreign mark => simp [holds]
  | con head args =>
    -- one argument exactly; no other number is held by a head over an argument
    match args with
    | [] => simp [holds]
    | [u] => simp [and_assoc]
    | _ :: _ :: _ => simp [holds]

/-- The head that a shape asks for is the head of every value it holds. -/
theorem eq_name_of_names {s : Shape} {c : CtorRef} {head : String} {args : List Value}
    (hs : s.names c = true) (h : s.holds (.con head args) = true) : head = c.name := by
  cases s with
  | any => exact absurd hs (by simp [names])
  | bare d =>
    obtain rfl : d = c := by simpa [names] using hs
    rw [holds_bare_iff] at h
    exact (Value.con.inj h).1
  | wrap d arg =>
    obtain rfl : d = c := by simpa [names] using hs
    obtain ⟨u, hu, -⟩ := (holds_wrap_iff _ _ _).mp h
    exact (Value.con.inj hu).1

/-- A shape asks for one head at most. -/
theorem names_inj {s : Shape} {c d : CtorRef} (hc : s.names c = true) (hd : s.names d = true) :
    c = d := by
  cases s with
  | any => exact absurd hc (by simp [names])
  | bare r =>
    obtain rfl : r = c := by simpa [names] using hc
    simpa [names] using hd
  | wrap r arg =>
    obtain rfl : r = c := by simpa [names] using hc
    simpa [names] using hd

/-- The shape of all values asks for no head. -/
theorem isAny_eq_false_of_names {s : Shape} {c : CtorRef} (hs : s.names c = true) :
    s.isAny = false := by
  cases s with
  | any => exact absurd hs (by simp [names])
  | bare d => rfl
  | wrap d arg => rfl

/-- A shape with an argument under a head is that head over the argument. -/
theorem eq_wrap_of_argUnder? {s arg : Shape} {c : CtorRef} (h : s.argUnder? c = some arg) :
    s = wrap c arg := by
  cases s with
  | any => exact absurd h (by simp [argUnder?])
  | bare d => exact absurd h (by simp [argUnder?])
  | wrap d a =>
    change (if d = c then some a else none) = some arg at h
    split at h
    · next hd => rw [hd, Option.some.inj h]
    · exact absurd h (by simp)

/-- Arguments under a head are those that the head stands over. -/
theorem mem_argsUnder_iff {shapes : List Shape} {arg : Shape} {c : CtorRef} :
    arg ∈ argsUnder c shapes ↔ wrap c arg ∈ shapes := by
  unfold argsUnder
  rw [List.mem_filterMap]
  refine ⟨?_, ?_⟩
  · rintro ⟨s, hs, harg⟩
    rwa [← eq_wrap_of_argUnder? harg]
  · intro hs
    exact ⟨wrap c arg, hs, by simp [argUnder?]⟩

/-- Under a head that no shape asks for there are no arguments. -/
theorem argsUnder_eq_nil_of_not_named {shapes : List Shape} {c : CtorRef}
    (h : shapes.any (names c) = false) : argsUnder c shapes = [] := by
  rw [List.eq_nil_iff_forall_not_mem]
  intro arg harg
  rw [List.any_eq_false] at h
  exact h _ (mem_argsUnder_iff.mp harg) (by simp [names])

/-! ### Fitting shapes under a head -/

section Head

variable {sig : Signature} {ty fieldTy : TypeDef} {c : CtorDef} {s : Shape}

theorem names_bare_ref {d : CtorDef} :
    (bare (ty.ref d)).names (ty.ref c) = true ↔ d.name = c.name := by
  simp [names, TypeDef.ref]

theorem names_wrap_ref {d : CtorDef} {arg : Shape} :
    (wrap (ty.ref d) arg).names (ty.ref c) = true ↔ d.name = c.name := by
  simp [names, TypeDef.ref]

/-- **Inversion under a head.** A fitting shape that is headed by a constructor is the bare
constructor, or the constructor over a shape that fits its field, or the constructor over
`any` when the type of its field is not declared. -/
theorem Fits.of_names (h : s.Fits sig ty) (hsig : sig.Distinct) (hty : ty ∈ sig.types)
    (hc : c ∈ ty.ctors) (hs : s.names (ty.ref c) = true) :
    (c.field = none ∧ s = .bare (ty.ref c)) ∨
      (∃ (fieldTy : TypeDef) (arg : Shape), sig.fieldType? c = some fieldTy ∧
        arg.Fits sig fieldTy ∧ s = .wrap (ty.ref c) arg) ∨
      (c.field.isSome = true ∧ sig.fieldType? c = none ∧ s = .wrap (ty.ref c) .any) := by
  cases h with
  | any => exact absurd hs (by simp [names])
  -- the shape fits by some constructor `d`, which shares its name with `c`
  | bare hd hfield =>
    obtain rfl := Signature.eq_of_name_eq hsig hty hd hc (names_bare_ref.mp hs)
    exact Or.inl ⟨hfield, rfl⟩
  | wrap hd hfield harg =>
    obtain rfl := Signature.eq_of_name_eq hsig hty hd hc (names_wrap_ref.mp hs)
    exact Or.inr (Or.inl ⟨_, _, hfield, harg, rfl⟩)
  | foreign hd hsome hnone =>
    obtain rfl := Signature.eq_of_name_eq hsig hty hd hc (names_wrap_ref.mp hs)
    exact Or.inr (Or.inr ⟨hsome, hnone, rfl⟩)

/-- Headed by a constructor over a declared type, a fitting shape has an argument that fits the
type of the field. -/
theorem Fits.exists_arg_of_names (h : s.Fits sig ty) (hsig : sig.Distinct)
    (hty : ty ∈ sig.types) (hc : c ∈ ty.ctors) (hs : s.names (ty.ref c) = true)
    (hfield : sig.fieldType? c = some fieldTy) :
    ∃ arg : Shape, arg.Fits sig fieldTy ∧ s = .wrap (ty.ref c) arg := by
  -- of the three forms only the second agrees with a declared type
  obtain ⟨hnone, -⟩ | ⟨fieldTy', arg, hfield', harg, heq⟩ | ⟨-, hnone, -⟩ :=
    h.of_names hsig hty hc hs
  · rw [Signature.fieldType?_eq_none_of_field hnone] at hfield
    exact absurd hfield (by simp)
  · rw [hfield] at hfield'
    obtain rfl := Option.some.inj hfield'
    exact ⟨arg, harg, heq⟩
  · rw [hnone] at hfield
    exact absurd hfield (by simp)

/-- A fitting shape that holds a value asks for the head of that value. -/
theorem Fits.names_of_holds (h : s.Fits sig ty) (hany : s.isAny = false) {args : List Value}
    (hholds : s.holds (.con c.name args) = true) : s.names (ty.ref c) = true := by
  -- each fitting shape but `any` asks for one head, which the value has
  cases h with
  | any => exact absurd hany (by simp [isAny])
  | bare hd hfield =>
    rw [holds_bare_iff] at hholds
    exact names_bare_ref.mpr (Value.con.inj hholds).1.symm
  | wrap hd hfield harg =>
    obtain ⟨u, hu, -⟩ := (holds_wrap_iff _ _ _).mp hholds
    exact names_wrap_ref.mpr (Value.con.inj hu).1.symm
  | foreign hd hsome hnone =>
    obtain ⟨u, hu, -⟩ := (holds_wrap_iff _ _ _).mp hholds
    exact names_wrap_ref.mpr (Value.con.inj hu).1.symm

/-- At a constructor without a field, holding its value is being headed by it. -/
theorem Fits.holds_bare (h : s.Fits sig ty) (hany : s.isAny = false) (hsig : sig.Distinct)
    (hty : ty ∈ sig.types) (hc : c ∈ ty.ctors) (hfield : c.field = none) :
    s.holds (.con c.name []) = s.names (ty.ref c) := by
  rw [Bool.eq_iff_iff]
  refine ⟨h.names_of_holds hany, fun hs => ?_⟩
  obtain ⟨-, rfl⟩ | ⟨fieldTy, arg, hsome, -⟩ | ⟨hsome, -⟩ := h.of_names hsig hty hc hs
  · exact (holds_bare_iff _ _).mpr rfl
  · rw [Signature.fieldType?_eq_none_of_field hfield] at hsome
    exact absurd hsome (by simp)
  · rw [hfield] at hsome
    exact absurd hsome (by simp)

/-- At a constructor over an undeclared type, holding one of its values is being headed by
it. -/
theorem Fits.holds_foreign (h : s.Fits sig ty) (hany : s.isAny = false) (hsig : sig.Distinct)
    (hty : ty ∈ sig.types) (hc : c ∈ ty.ctors) (hsome : c.field.isSome = true)
    (hnone : sig.fieldType? c = none) (v : Value) :
    s.holds (.con c.name [v]) = s.names (ty.ref c) := by
  rw [Bool.eq_iff_iff]
  refine ⟨h.names_of_holds hany, fun hs => ?_⟩
  obtain ⟨hfield, -⟩ | ⟨fieldTy, arg, hfield, -⟩ | ⟨-, -, rfl⟩ := h.of_names hsig hty hc hs
  · rw [hfield] at hsome
    exact absurd hsome (by simp)
  · rw [hnone] at hfield
    exact absurd hfield (by simp)
  · exact (holds_wrap_iff _ _ _).mpr ⟨v, rfl, rfl⟩

/-- At a constructor over a declared type, holding a value is to have an argument below that
head which holds the value's argument. -/
theorem Fits.holds_wrap (h : s.Fits sig ty) (hany : s.isAny = false) (hsig : sig.Distinct)
    (hty : ty ∈ sig.types) (hc : c ∈ ty.ctors) (hfield : sig.fieldType? c = some fieldTy)
    (v : Value) :
    s.holds (.con c.name [v]) = true ↔
      ∃ arg, s.argUnder? (ty.ref c) = some arg ∧ arg.holds v = true := by
  refine ⟨fun hholds => ?_, ?_⟩
  · have hs : s.names (ty.ref c) = true := h.names_of_holds hany hholds
    obtain ⟨arg, -, rfl⟩ := h.exists_arg_of_names hsig hty hc hs hfield
    -- the value has one argument, and it is the one in question
    obtain ⟨u, hu, harg⟩ := (holds_wrap_iff _ _ _).mp hholds
    obtain rfl : v = u := by simpa using (Value.con.inj hu).2
    exact ⟨arg, by simp [argUnder?], harg⟩
  · rintro ⟨arg, harg, hholds⟩
    obtain rfl := eq_wrap_of_argUnder? harg
    exact (holds_wrap_iff _ _ _).mpr ⟨v, rfl, hholds⟩

end Head

/-! ### Fitting shapes together -/

section Together

variable {sig : Signature} {ty fieldTy : TypeDef} {c : CtorDef} {shapes : List Shape}

theorem isAny_eq_false_of_mem {s : Shape} (hany : shapes.any isAny = false) (hs : s ∈ shapes) :
    s.isAny = false := by
  rw [List.any_eq_false] at hany
  exact Bool.eq_false_iff.mpr (hany s hs)

/-- Arguments under a head fit the field below it. -/
theorem fits_of_mem_argsUnder (hs : ∀ s ∈ shapes, s.Fits sig ty) (hsig : sig.Distinct)
    (hty : ty ∈ sig.types) (hc : c ∈ ty.ctors) (hfield : sig.fieldType? c = some fieldTy) :
    ∀ arg ∈ argsUnder (ty.ref c) shapes, arg.Fits sig fieldTy := by
  intro arg harg
  -- the argument stands in a fitting shape, which is inverted under its head
  have hnames : (wrap (ty.ref c) arg).names (ty.ref c) = true := names_wrap_ref.mpr rfl
  obtain ⟨arg', hfits, heq⟩ :=
    (hs _ (mem_argsUnder_iff.mp harg)).exists_arg_of_names hsig hty hc hnames hfield
  obtain rfl : arg = arg' := by simpa using heq
  exact hfits

/-- Without a field, shapes hold the value of a constructor if one of them asks for it. -/
theorem any_holds_bare (hs : ∀ s ∈ shapes, s.Fits sig ty) (hany : shapes.any isAny = false)
    (hsig : sig.Distinct) (hty : ty ∈ sig.types) (hc : c ∈ ty.ctors) (hfield : c.field = none) :
    shapes.any (·.holds (.con c.name [])) = shapes.any (names (ty.ref c)) := by
  rw [Bool.eq_iff_iff, List.any_eq_true, List.any_eq_true]
  refine exists_congr fun s => and_congr_right fun hmem => ?_
  rw [(hs s hmem).holds_bare (isAny_eq_false_of_mem hany hmem) hsig hty hc hfield]

theorem any_holds_foreign (hs : ∀ s ∈ shapes, s.Fits sig ty) (hany : shapes.any isAny = false)
    (hsig : sig.Distinct) (hty : ty ∈ sig.types) (hc : c ∈ ty.ctors)
    (hsome : c.field.isSome = true) (hnone : sig.fieldType? c = none) (v : Value) :
    shapes.any (·.holds (.con c.name [v])) = shapes.any (names (ty.ref c)) := by
  rw [Bool.eq_iff_iff, List.any_eq_true, List.any_eq_true]
  refine exists_congr fun s => and_congr_right fun hmem => ?_
  rw [(hs s hmem).holds_foreign (isAny_eq_false_of_mem hany hmem) hsig hty hc hsome hnone v]

/-- **Going below a head.** Shapes hold a value headed by a constructor over a declared type
exactly if their arguments under that head hold the value's argument. -/
theorem any_holds_wrap (hs : ∀ s ∈ shapes, s.Fits sig ty) (hany : shapes.any isAny = false)
    (hsig : sig.Distinct) (hty : ty ∈ sig.types) (hc : c ∈ ty.ctors)
    (hfield : sig.fieldType? c = some fieldTy) (v : Value) :
    shapes.any (·.holds (.con c.name [v])) = (argsUnder (ty.ref c) shapes).any (·.holds v) := by
  rw [Bool.eq_iff_iff, List.any_eq_true, List.any_eq_true]
  -- the shape on the left is the head over the argument on the right
  refine ⟨?_, ?_⟩
  · rintro ⟨s, hmem, hholds⟩
    obtain ⟨arg, harg, hv⟩ :=
      ((hs s hmem).holds_wrap (isAny_eq_false_of_mem hany hmem) hsig hty hc hfield v).mp hholds
    exact ⟨arg, List.mem_filterMap.mpr ⟨s, hmem, harg⟩, hv⟩
  · rintro ⟨arg, harg, hv⟩
    exact ⟨wrap (ty.ref c) arg, mem_argsUnder_iff.mp harg,
      (holds_wrap_iff _ _ _).mpr ⟨v, rfl, hv⟩⟩

end Together

end Shape

end MatchCheck
