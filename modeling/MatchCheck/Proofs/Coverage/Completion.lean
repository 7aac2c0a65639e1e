import MatchCheck.Proofs.Coverage.Agreement

/-!
# Adding what is missing

The cases that shapes miss can be added to them one by one or together: behind the shapes and some
of these cases, exactly the others are missing (`missing_append_of_subset`). Behind the shapes and
all of them nothing is missing (`missing_append_missing`).

As for a single added shape the question goes to the constructors one by one. The cases that are
added for a constructor are from its part of the list of missing cases (`mem_missingOf_of_names`).
Under a constructor that was named they are cases that its field misses, and the same question is
asked of the field. Under one that was not named there is only the whole constructor to be added.
-/

namespace MatchCheck.Shape

variable {sig : Signature} {ty fieldTy : TypeDef} {c : CtorDef} {shapes added : List Shape}

/-- A missing shape that is headed by a constructor is in the part of this constructor. -/
theorem mem_missingOf_of_names (hsig : sig.Distinct) (hty : ty ∈ sig.types) (hc : c ∈ ty.ctors)
    (hany : shapes.any isAny = false) {w : Shape} (hw : w ∈ missing sig ty shapes)
    (hnames : w.names (ty.ref c) = true) : w ∈ missingOf sig ty shapes c := by
  rw [missing_eq_flatMap hany] at hw
  obtain ⟨d, hd, hw⟩ := List.mem_flatMap.mp hw
  have href : ty.ref d = ty.ref c := names_inj (names_of_mem_missingOf hw) hnames
  obtain rfl := Signature.eq_of_name_eq hsig hty hd hc (congrArg CtorRef.name href)
  exact hw

/-- Under a named constructor over a declared type, missing shapes that are added become shapes that
the field misses. -/
theorem argsUnder_subset_missing (hsig : sig.Distinct) (hty : ty ∈ sig.types) (hc : c ∈ ty.ctors)
    (hany : shapes.any isAny = false) (hnamed : shapes.any (names (ty.ref c)) = true)
    (hfield : sig.fieldType? c = some fieldTy) (hadded : added ⊆ missing sig ty shapes) :
    argsUnder (ty.ref c) added ⊆ missing sig fieldTy (argsUnder (ty.ref c) shapes) := by
  intro arg harg
  -- what is missing under the head is missing of the constructor
  have hwrap : wrap (ty.ref c) arg ∈ missingOf sig ty shapes c :=
    mem_missingOf_of_names hsig hty hc hany (hadded (mem_argsUnder_iff.mp harg))
      (names_wrap_ref.mpr rfl)
  rw [missingOf_of_named hnamed hfield] at hwrap
  obtain ⟨arg', hmem, heq⟩ := List.mem_map.mp hwrap
  rwa [← (wrap.inj heq).2]

/-- The part of a constructor that was not named, behind missing shapes that are added: nothing if
the whole constructor is added, and the whole constructor if not. -/
theorem missingOf_append_of_not_named (hsig : sig.Distinct) (hty : ty ∈ sig.types)
    (hc : c ∈ ty.ctors) (hany : shapes.any isAny = false)
    (hnamed : shapes.any (names (ty.ref c)) = false) (hadded : added ⊆ missing sig ty shapes) :
    missingOf sig ty (shapes ++ added) c = if whole ty c ∈ added then [] else [whole ty c] := by
  split
  · next hwhole =>
    have hnow : (shapes ++ added).any (names (ty.ref c)) = true :=
      List.any_eq_true.mpr ⟨_, List.mem_append_right _ hwhole, names_whole ty c⟩
    cases hfield : sig.fieldType? c with
    | none => exact missingOf_of_named_closed hnow hfield
    | some fieldTy =>
      -- the whole constructor has `any` below its head, which covers the field
      rw [whole_of_field_isSome (Signature.field_isSome_of_fieldType? hfield)] at hwhole
      have hall : (argsUnder (ty.ref c) (shapes ++ added)).any isAny = true :=
        List.any_eq_true.mpr
          ⟨any, mem_argsUnder_iff.mpr (List.mem_append_right _ hwhole), rfl⟩
      rw [missingOf_of_named hnow hfield, missing_of_any hall, List.map_nil]
  · next hwhole =>
    -- nothing else that is missing is headed by the constructor
    refine missingOf_of_not_named ?_
    rw [List.any_append, hnamed, Bool.false_or, List.any_eq_false]
    intro w hw hnames
    have hmem := mem_missingOf_of_names hsig hty hc hany (hadded hw) hnames
    rw [missingOf_of_not_named hnamed, List.mem_singleton] at hmem
    exact hwhole (hmem ▸ hw)

/-- **What is added is no longer missing, and all else is.** -/
theorem missing_append_of_subset (hsig : sig.Distinct) (hty : ty ∈ sig.types)
    (hadded : added ⊆ missing sig ty shapes) :
    missing sig ty (shapes ++ added) = (missing sig ty shapes).filter (· ∉ added) := by
  induction ty, shapes using missing.induct generalizing added with
  | case1 ty shapes hany =>
    have hall : (shapes ++ added).any isAny = true := by rw [List.any_append, hany, Bool.true_or]
    rw [missing_of_any hany, missing_of_any hall, List.filter_nil]
  | case2 ty shapes hany ih =>
    have hany : shapes.any isAny = false := Bool.eq_false_iff.mpr hany
    have hnone : (shapes ++ added).any isAny = false := by
      rw [List.any_append, hany, Bool.false_or, List.any_eq_false]
      exact fun w hw => Bool.eq_false_iff.mp (isAny_eq_false_of_mem_missing (hadded hw))
    rw [missing_eq_flatMap hnone, missing_eq_flatMap hany, List.filter_flatMap]
    refine List.flatMap_congr fun c hc => ?_
    cases hbefore : shapes.any (names (ty.ref c)) with
    | false =>
      rw [missingOf_append_of_not_named hsig hty hc hany hbefore hadded,
        missingOf_of_not_named hbefore]
      by_cases hwhole : whole ty c ∈ added <;> simp [hwhole]
    | true =>
      have hnamed : (shapes ++ added).any (names (ty.ref c)) = true := by
        rw [List.any_append, hbefore, Bool.true_or]
      cases hfield : sig.fieldType? c with
      | none =>
        rw [missingOf_of_named_closed hnamed hfield, missingOf_of_named_closed hbefore hfield,
          List.filter_nil]
      | some fieldTy =>
        have hbelow := argsUnder_subset_missing hsig hty hc hany hbefore hfield hadded
        rw [missingOf_of_named hnamed hfield, missingOf_of_named hbefore hfield, argsUnder_append,
          ih c hbefore fieldTy (Signature.mem_types_of_fieldType? hfield) hbelow, List.filter_map]
        -- an argument is added below the head if the head over it is added
        refine congrArg _ (List.filter_congr fun arg _ => ?_)
        simp [mem_argsUnder_iff]

/-- **Nothing is missing behind what was missing.** -/
theorem missing_append_missing (hsig : sig.Distinct) (hty : ty ∈ sig.types) :
    missing sig ty (shapes ++ missing sig ty shapes) = [] := by
  rw [missing_append_of_subset hsig hty (List.Subset.refl _), List.filter_eq_nil_iff]
  intro w hw
  simpa using hw

end MatchCheck.Shape
