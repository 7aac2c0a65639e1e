import Mathlib.Logic.Relation
import MatchCheck.Proofs.Coverage.Missing

/-!
# A useful shape holds a new value

`Shape.useful` decides whether a shape adds a value to those that earlier shapes hold. It
looks down along the new shape and changes to a question about missing cases where the new
shape is `any`. The answer is right in both directions:

* a shape that is not useful holds only values that earlier shapes hold already, so that
  an arm with this shape can never be reached (`any_holds_of_useful_eq_false`);
* a useful shape holds a value that no earlier shape holds (`exists_holds_of_useful`),
  provided the types below the type in question have values at all. A shape over a type
  without values counts as useful and still holds nothing.

Both go by induction on the derivation that the new shape fits its type. At each head
either no earlier shape is headed alike, and then every value under this head is new, or
the arguments under the head decide (`useful_wrap`).
-/

namespace MatchCheck.Shape

variable {sig : Signature} {ty fieldTy : TypeDef} {c : CtorDef} {earlier : List Shape}
  {s arg : Shape} {v : Value}

/-! ### What decides usefulness -/

theorem useful_of_any (hany : earlier.any isAny = true) (s : Shape) :
    useful sig ty earlier s = false := by
  cases s <;> simp [useful, hany]

theorem useful_any (hany : earlier.any isAny = false) :
    useful sig ty earlier any = true ↔ missing sig ty earlier ≠ [] := by
  simp [useful, hany, exhaustive]

/-- A shape whose head is new is useful. -/
theorem useful_of_not_named {r : CtorRef} (hany : earlier.any isAny = false)
    (hs : s.names r = true) (hnamed : earlier.any (names r) = false) :
    useful sig ty earlier s = true := by
  cases s with
  | any => exact absurd hs (by simp [names])
  | bare d =>
    obtain rfl : d = r := by simpa [names] using hs
    simp [useful, hany, hnamed]
  | wrap d arg =>
    obtain rfl : d = r := by simpa [names] using hs
    simp [useful, hany, hnamed]

theorem useful_bare {r : CtorRef} (hnamed : earlier.any (names r) = true) :
    useful sig ty earlier (bare r) = false := by
  simp [useful, hnamed]

/-- Below a head that occurred before, the arguments decide. -/
theorem useful_wrap (hsig : sig.Distinct) (hty : ty ∈ sig.types) (hc : c ∈ ty.ctors)
    (hany : earlier.any isAny = false) (hnamed : earlier.any (names (ty.ref c)) = true)
    (hfield : sig.fieldType? c = some fieldTy) (arg : Shape) :
    useful sig ty earlier (wrap (ty.ref c) arg) =
      useful sig fieldTy (argsUnder (ty.ref c) earlier) arg := by
  rw [useful, hany, hnamed, Signature.ctor?_ref hsig hty hc, Option.bind_some, hfield]
  rfl

/-- Below a head that occurred before, nothing is new in a field of an undeclared type. -/
theorem useful_wrap_closed (hsig : sig.Distinct) (hty : ty ∈ sig.types) (hc : c ∈ ty.ctors)
    (hnamed : earlier.any (names (ty.ref c)) = true) (hfield : sig.fieldType? c = none)
    (arg : Shape) : useful sig ty earlier (wrap (ty.ref c) arg) = false := by
  rw [useful, hnamed, Signature.ctor?_ref hsig hty hc, Option.bind_some, hfield]
  simp

/-! ### Nothing new -/

/-- Only shapes without `any` have to be looked at. -/
theorem any_holds_of_imp (h : earlier.any isAny = false → earlier.any (·.holds v) = true) :
    earlier.any (·.holds v) = true := by
  cases hany : earlier.any isAny with
  | true => exact any_holds_of_any hany v
  | false => exact h hany

/-- A shape that is not useful has a head that occurred before. -/
theorem named_of_useful_eq_false {r : CtorRef} (hany : earlier.any isAny = false)
    (hs : s.names r = true) (huse : useful sig ty earlier s = false) :
    earlier.any (names r) = true := by
  by_contra hnamed
  rw [useful_of_not_named hany hs (Bool.eq_false_iff.mpr hnamed)] at huse
  exact absurd huse (by simp)

/-- **Unreachable means covered.** What a shape holds that is not useful, earlier shapes hold.
-/
theorem any_holds_of_useful_eq_false (hsig : sig.Distinct) (hs : s.Fits sig ty)
    (hty : ty ∈ sig.types) (he : ∀ t ∈ earlier, t.Fits sig ty)
    (huse : useful sig ty earlier s = false) (hv : v.HasType sig ty)
    (hholds : s.holds v = true) : earlier.any (·.holds v) = true := by
  induction hs generalizing earlier v with
  | @any ty =>
    -- were something missing, `any` would be useful
    refine any_holds_of_imp fun hany => any_holds_of_missing_eq_nil hsig hv hty he ?_
    by_contra hne
    rw [(useful_any hany).mpr hne] at huse
    exact absurd huse (by simp)
  | @bare ty c hc hfield =>
    refine any_holds_of_imp fun hany => ?_
    obtain rfl := (holds_bare_iff _ _).mp hholds
    change earlier.any (·.holds (.con c.name [])) = true
    rw [any_holds_bare he hany hsig hty hc hfield]
    exact named_of_useful_eq_false hany (names_bare_ref.mpr rfl) huse
  | @wrap ty fieldTy c arg hc hfield harg ih =>
    refine any_holds_of_imp fun hany => ?_
    have hnamed : earlier.any (names (ty.ref c)) = true :=
      named_of_useful_eq_false hany (names_wrap_ref.mpr rfl) huse
    rw [useful_wrap hsig hty hc hany hnamed hfield] at huse
    -- the value is headed alike, and its argument is a value of the field's type
    obtain ⟨u, rfl, hu⟩ := (holds_wrap_iff _ _ _).mp hholds
    have huty : u.HasType sig fieldTy := hv.arg_of_fieldType? hsig hty hc hfield
    change earlier.any (·.holds (.con c.name [u])) = true
    rw [any_holds_wrap he hany hsig hty hc hfield]
    exact ih (Signature.mem_types_of_fieldType? hfield)
      (fits_of_mem_argsUnder he hsig hty hc hfield) huse huty hu
  | @foreign ty c hc hsome hnone =>
    refine any_holds_of_imp fun hany => ?_
    obtain ⟨u, rfl, -⟩ := (holds_wrap_iff _ _ _).mp hholds
    change earlier.any (·.holds (.con c.name [u])) = true
    rw [any_holds_foreign he hany hsig hty hc hsome hnone]
    exact named_of_useful_eq_false hany (names_wrap_ref.mpr rfl) huse

/-! ### A new value -/

/-- A fitting shape holds a value of its type, if the types below have values, and for `any` also
the type itself. -/
theorem Fits.exists_value (hs : s.Fits sig ty) (hself : s.isAny = true → sig.HasValue ty)
    (hreach : ∀ t, Relation.TransGen sig.HasFieldOf ty t → sig.HasValue t) :
    ∃ v : Value, v.HasType sig ty ∧ s.holds v = true := by
  induction hs with
  | @any ty =>
    obtain ⟨v, hv⟩ := hself rfl
    exact ⟨v, hv, rfl⟩
  | @bare ty c hc hfield =>
    exact ⟨.con c.name [], .bare hc hfield, (holds_bare_iff _ _).mpr rfl⟩
  | @wrap ty fieldTy c arg hc hfield harg ih =>
    -- below the head every type has values, since it is reached from the type of the field
    have hstep : sig.HasFieldOf ty fieldTy := ⟨c, hc, hfield⟩
    obtain ⟨v, hv, hholds⟩ :=
      ih (fun _ => hreach fieldTy (.single hstep)) (fun t ht => hreach t (.head hstep ht))
    exact ⟨.con c.name [v], .wrap hc hfield hv, (holds_wrap_iff _ _ _).mpr ⟨v, rfl, hholds⟩⟩
  | @foreign ty c hc hsome hnone =>
    exact ⟨.con c.name [.foreign 0], .foreign 0 hc hsome hnone,
      (holds_wrap_iff _ _ _).mpr ⟨.foreign 0, rfl, rfl⟩⟩

/-- Shapes that are not headed by a constructor hold none of its values. -/
theorem any_holds_con_eq_false (he : ∀ t ∈ earlier, t.Fits sig ty)
    (hany : earlier.any isAny = false) (hnamed : earlier.any (names (ty.ref c)) = false)
    (args : List Value) : earlier.any (·.holds (.con c.name args)) = false := by
  rw [List.any_eq_false] at hnamed ⊢
  intro t ht hholds
  exact hnamed t ht ((he t ht).names_of_holds (isAny_eq_false_of_mem hany ht) hholds)

theorem isAny_eq_false_of_useful (huse : useful sig ty earlier s = true) :
    earlier.any isAny = false := by
  rw [Bool.eq_false_iff]
  intro hany
  rw [useful_of_any hany] at huse
  exact absurd huse (by simp)

/-- **Useful means reachable.** A useful shape holds a value that earlier shapes do not hold, if
the types below its type have values. -/
theorem exists_holds_of_useful (hsig : sig.Distinct) (hs : s.Fits sig ty)
    (hty : ty ∈ sig.types) (he : ∀ t ∈ earlier, t.Fits sig ty)
    (huse : useful sig ty earlier s = true)
    (hreach : ∀ t, Relation.TransGen sig.HasFieldOf ty t → sig.HasValue t) :
    ∃ v : Value, v.HasType sig ty ∧ s.holds v = true ∧ earlier.any (·.holds v) = false := by
  have hany : earlier.any isAny = false := isAny_eq_false_of_useful huse
  induction hs generalizing earlier with
  | @any ty =>
    -- a missing shape has a value, and what it holds is held by no earlier shape
    obtain ⟨w, hw⟩ := List.exists_mem_of_ne_nil _ ((useful_any hany).mp huse)
    have hwany : w.isAny = false := isAny_eq_false_of_mem_missing hw
    obtain ⟨v, hv, hholds⟩ := (fits_of_mem_missing hw).exists_value
      (fun h => absurd (hwany.symm.trans h) (by simp)) hreach
    exact ⟨v, hv, rfl, any_holds_eq_false_of_mem_missing hsig hv hty he hw hholds⟩
  | @bare ty c hc hfield =>
    refine ⟨.con c.name [], .bare hc hfield, (holds_bare_iff _ _).mpr rfl, ?_⟩
    refine any_holds_con_eq_false he hany ?_ []
    rw [Bool.eq_false_iff]
    intro hnamed
    rw [useful_bare hnamed] at huse
    exact absurd huse (by simp)
  | @wrap ty fieldTy c arg hc hfield harg ih =>
    have hstep : sig.HasFieldOf ty fieldTy := ⟨c, hc, hfield⟩
    have hbelow : ∀ t, Relation.TransGen sig.HasFieldOf fieldTy t → sig.HasValue t :=
      fun t ht => hreach t (.head hstep ht)
    cases hnamed : earlier.any (names (ty.ref c)) with
    | false =>
      -- the head is new, and so is every value under it
      obtain ⟨u, hu, hholds⟩ := harg.exists_value (fun _ => hreach fieldTy (.single hstep)) hbelow
      exact ⟨.con c.name [u], .wrap hc hfield hu, (holds_wrap_iff _ _ _).mpr ⟨u, rfl, hholds⟩,
        any_holds_con_eq_false he hany hnamed [u]⟩
    | true =>
      -- the argument is useful below the head, and its new value is new above it too
      rw [useful_wrap hsig hty hc hany hnamed hfield] at huse
      obtain ⟨u, hu, hholds, hnew⟩ := ih (Signature.mem_types_of_fieldType? hfield)
        (fits_of_mem_argsUnder he hsig hty hc hfield) huse hbelow (isAny_eq_false_of_useful huse)
      refine ⟨.con c.name [u], .wrap hc hfield hu, (holds_wrap_iff _ _ _).mpr ⟨u, rfl, hholds⟩, ?_⟩
      rw [any_holds_wrap he hany hsig hty hc hfield]
      exact hnew
  | @foreign ty c hc hsome hnone =>
    refine ⟨.con c.name [.foreign 0], .foreign 0 hc hsome hnone,
      (holds_wrap_iff _ _ _).mpr ⟨.foreign 0, rfl, rfl⟩, ?_⟩
    refine any_holds_con_eq_false he hany ?_ [.foreign 0]
    rw [Bool.eq_false_iff]
    intro hnamed
    rw [useful_wrap_closed hsig hty hc hnamed hnone] at huse
    exact absurd huse (by simp)

/-! ### Usefulness decides reachability -/

/-- **Usefulness decides reachability.** In the signature of a program, take earlier shapes and one
more shape that all fit a type. If the shape is not useful, every value of the type that it holds
is held by an earlier shape. If it is useful, and every type that can be reached from the type
through fields has a value, then it holds a value of the type that no earlier shape holds. -/
theorem useful_decides_reachability (p : Program) {ty : TypeDef} (hty : ty ∈ p.signature.types)
    {earlier : List Shape} (he : ∀ t ∈ earlier, t.Fits p.signature ty) {s : Shape}
    (hs : s.Fits p.signature ty) :
    (useful p.signature ty earlier s = false →
        ∀ v : Value, v.HasType p.signature ty → s.holds v = true →
          ∃ t ∈ earlier, t.holds v = true) ∧
      (useful p.signature ty earlier s = true →
        (∀ t, Relation.TransGen p.signature.HasFieldOf ty t → p.signature.HasValue t) →
          ∃ v : Value, v.HasType p.signature ty ∧ s.holds v = true ∧
            ∀ t ∈ earlier, t.holds v = false) := by
  have hsig : p.signature.Distinct := p.signature_distinct
  refine ⟨fun huse v hv hholds => ?_, fun huse hreach => ?_⟩
  · exact List.any_eq_true.mp (any_holds_of_useful_eq_false hsig hs hty he huse hv hholds)
  · -- a value that makes the difference exists if the types below have any values
    obtain ⟨v, hv, hholds, hnew⟩ := exists_holds_of_useful hsig hs hty he huse hreach
    rw [List.any_eq_false] at hnew
    exact ⟨v, hv, hholds, fun t ht => Bool.eq_false_iff.mpr (hnew t ht)⟩

/-- Trees and forests have values. -/
theorem hasValue_of_mem_grove {t : TypeDef} (ht : t ∈ grove.signature.types) :
    grove.signature.HasValue t := by
  have hleaf : (⟨"Leaf", default, none⟩ : CtorDef) ∈ tree.ctors := by decide
  have hbare : (⟨"Bare", default, none⟩ : CtorDef) ∈ forest.ctors := by decide
  have htypes : grove.signature.types = [tree, forest] := by decide
  rw [htypes] at ht
  simp only [List.mem_cons, List.not_mem_nil, or_false] at ht
  rcases ht with rfl | rfl
  · exact ⟨.con "Leaf" [], .bare hleaf rfl⟩
  · exact ⟨.con "Bare" [], .bare hbare rfl⟩

/-- Behind the shapes of the grove, an arm for all nodes is reached. -/
theorem grove_node_reached :
    useful grove.signature tree groveShapes (wrap ⟨"Tree", "Node"⟩ any) = true ∧
      ∃ v : Value, v.HasType grove.signature tree ∧
        (wrap ⟨"Tree", "Node"⟩ any).holds v = true ∧ ∀ t ∈ groveShapes, t.holds v = false := by
  have hs : (wrap ⟨"Tree", "Node"⟩ any).Fits grove.signature tree :=
    .wrap node_mem_tree fieldType?_node .any
  have huse : useful grove.signature tree groveShapes (wrap ⟨"Tree", "Node"⟩ any) = true := by
    decide +kernel
  refine ⟨huse, (useful_decides_reachability grove (by decide) fits_groveShapes hs).2 huse ?_⟩
  -- a type that is reached is the field type of some constructor, and so is declared
  intro t ht
  obtain ⟨u, -, c, -, hfield⟩ := Relation.TransGen.tail'_iff.mp ht
  exact hasValue_of_mem_grove (Signature.mem_types_of_fieldType? hfield)

end MatchCheck.Shape
