import MatchCheck.Proofs.Value.Matching

/-!
# The missing cases partition the uncovered values

`Shape.missing` lists what shapes leave out of a type. Read as shapes again, its answers
hold exactly the values that are left out, each value once: a value of the type that none
of the shapes holds is held by exactly one of them, a value that some shape holds is held
by none, and no value at all is held by two.

The list is read constructor by constructor. `missingOf` is its part for one constructor,
and every shape in it is headed by that constructor (`names_of_mem_missingOf`). A value is
headed by one name, and names tell the constructors of a type apart, so that counting the
shapes that hold a value takes place in one part alone (`countP_missing_con`). Below the
head the same question is asked again about the argument of the value. The induction is
therefore on the value, or rather on the derivation of its type, and not on the shapes;
types that refer to themselves need no special care, because values are finite.
-/

namespace MatchCheck.Shape

variable {sig : Signature} {ty fieldTy : TypeDef} {c : CtorDef} {shapes : List Shape}

/-! ### One constructor at a time -/

/-- What shapes leave out of the values of one constructor. -/
def missingOf (sig : Signature) (ty : TypeDef) (shapes : List Shape) (c : CtorDef) :
    List Shape :=
  if shapes.any (names (ty.ref c)) then
    match sig.fieldType? c with
    | some fieldTy => (missing sig fieldTy (argsUnder (ty.ref c) shapes)).map (wrap (ty.ref c))
    | none => []
  else [whole ty c]

theorem missing_of_any (hany : shapes.any isAny = true) : missing sig ty shapes = [] := by
  rw [missing, if_pos hany]

/-- Without `any`, what is missing is collected from the constructors. -/
theorem missing_eq_flatMap (hany : shapes.any isAny = false) :
    missing sig ty shapes = ty.ctors.flatMap (missingOf sig ty shapes) := by
  rw [missing, if_neg (by rw [hany]; simp)]
  rfl

/-- A constructor that no shape names is missing as a whole. -/
theorem missingOf_of_not_named (h : shapes.any (names (ty.ref c)) = false) :
    missingOf sig ty shapes c = [whole ty c] := by
  rw [missingOf, if_neg (by rw [h]; simp)]

/-- Of one that is named, what is missing below it. -/
theorem missingOf_of_named (h : shapes.any (names (ty.ref c)) = true)
    (hfield : sig.fieldType? c = some fieldTy) :
    missingOf sig ty shapes c =
      (missing sig fieldTy (argsUnder (ty.ref c) shapes)).map (wrap (ty.ref c)) := by
  rw [missingOf, if_pos h, hfield]

theorem missingOf_of_named_closed (h : shapes.any (names (ty.ref c)) = true)
    (hfield : sig.fieldType? c = none) : missingOf sig ty shapes c = [] := by
  rw [missingOf, if_pos h, hfield]

theorem whole_of_field_none (h : c.field = none) : whole ty c = bare (ty.ref c) := by
  rw [whole, if_neg (by rw [h]; simp)]

theorem whole_of_field_isSome (h : c.field.isSome = true) :
    whole ty c = wrap (ty.ref c) any := by
  rw [whole, if_pos h]

theorem names_whole (ty : TypeDef) (c : CtorDef) : (whole ty c).names (ty.ref c) = true := by
  unfold whole
  split
  · exact names_wrap_ref.mpr rfl
  · exact names_bare_ref.mpr rfl

/-- A missing shape of a constructor is all of it, where no shape names it, and otherwise has a
missing shape of the field below its head. -/
theorem mem_missingOf_cases {w : Shape} (hw : w ∈ missingOf sig ty shapes c) :
    shapes.any (names (ty.ref c)) = false ∧ w = whole ty c ∨
      shapes.any (names (ty.ref c)) = true ∧ ∃ fieldTy, sig.fieldType? c = some fieldTy ∧
        ∃ w' ∈ missing sig fieldTy (argsUnder (ty.ref c) shapes), w = wrap (ty.ref c) w' := by
  cases hnamed : shapes.any (names (ty.ref c)) with
  | false =>
    rw [missingOf_of_not_named hnamed] at hw
    exact .inl ⟨rfl, List.mem_singleton.mp hw⟩
  | true =>
    -- over an undeclared type a constructor that is named misses nothing
    cases hfield : sig.fieldType? c with
    | none =>
      rw [missingOf_of_named_closed hnamed hfield] at hw
      exact absurd hw List.not_mem_nil
    | some fieldTy =>
      rw [missingOf_of_named hnamed hfield] at hw
      obtain ⟨w', hw', rfl⟩ := List.mem_map.mp hw
      exact .inr ⟨rfl, fieldTy, rfl, w', hw', rfl⟩

/-- The missing shapes of a constructor are headed by it. -/
theorem names_of_mem_missingOf {w : Shape} (hw : w ∈ missingOf sig ty shapes c) :
    w.names (ty.ref c) = true := by
  rcases mem_missingOf_cases hw with ⟨-, rfl⟩ | ⟨-, -, -, w', -, rfl⟩
  · exact names_whole ty c
  · exact names_wrap_ref.mpr rfl

/-- What is missing of a type is missing of one of its constructors. -/
theorem exists_ctor_of_mem_missing {w : Shape} (hw : w ∈ missing sig ty shapes) :
    ∃ c ∈ ty.ctors, w ∈ missingOf sig ty shapes c := by
  cases hany : shapes.any isAny with
  | true =>
    rw [missing_of_any hany] at hw
    exact absurd hw List.not_mem_nil
  | false =>
    rw [missing_eq_flatMap hany] at hw
    exact List.mem_flatMap.mp hw

/-- What is missing of a type is the shape of some constructor and never `any`. -/
theorem isAny_eq_false_of_mem_missing {w : Shape} (hw : w ∈ missing sig ty shapes) :
    w.isAny = false := by
  obtain ⟨c, -, hw⟩ := exists_ctor_of_mem_missing hw
  exact isAny_eq_false_of_names (names_of_mem_missingOf hw)

theorem fits_whole (sig : Signature) (hc : c ∈ ty.ctors) : (whole ty c).Fits sig ty := by
  rcases sig.field_cases c with hnone | ⟨fieldTy, hfield⟩ | ⟨hsome, hnone⟩
  · rw [whole_of_field_none hnone]
    exact .bare hc hnone
  · rw [whole_of_field_isSome (Signature.field_isSome_of_fieldType? hfield)]
    exact .wrap hc hfield .any
  · rw [whole_of_field_isSome hsome]
    exact .foreign hc hsome hnone

/-- **Missing shapes belong to the type.** Whatever the given shapes are, what they leave out
is told by shapes that fit. -/
theorem fits_of_mem_missing {w : Shape} (hw : w ∈ missing sig ty shapes) : w.Fits sig ty := by
  -- along the recursion of `missing`, into the type of the field
  induction ty, shapes using missing.induct generalizing w with
  | case1 ty shapes hany =>
    rw [missing_of_any hany] at hw
    exact absurd hw List.not_mem_nil
  | case2 ty shapes hany ih =>
    obtain ⟨c, hc, hw⟩ := exists_ctor_of_mem_missing hw
    rcases mem_missingOf_cases hw with ⟨-, rfl⟩ | ⟨hnamed, fieldTy, hfield, w', hw', rfl⟩
    · exact fits_whole sig hc
    · exact .wrap hc hfield (ih c hnamed fieldTy hw')

/-! ### Counting the missing shapes that hold a value -/

/-- Constructors of other names hold no part in a value. -/
theorem countP_flatMap_missingOf_eq_zero {cs : List CtorDef} {head : String}
    (h : ∀ d ∈ cs, d.name ≠ head) (args : List Value) :
    (cs.flatMap (missingOf sig ty shapes)).countP (·.holds (.con head args)) = 0 := by
  rw [List.countP_eq_zero]
  intro w hw hholds
  obtain ⟨d, hd, hw⟩ := List.mem_flatMap.mp hw
  exact h d hd (eq_name_of_names (names_of_mem_missingOf hw) hholds).symm

/-- **One part counts.** The missing shapes that hold a value are among those of the
constructor that heads it. -/
theorem countP_missing_con (hsig : sig.Distinct) (hty : ty ∈ sig.types) (hc : c ∈ ty.ctors)
    (hany : shapes.any isAny = false) (args : List Value) :
    (missing sig ty shapes).countP (·.holds (.con c.name args)) =
      (missingOf sig ty shapes c).countP (·.holds (.con c.name args)) := by
  obtain ⟨before, after, heq, hbefore, hafter⟩ := Signature.exists_split_ctors hsig hty hc
  rw [missing_eq_flatMap hany, heq, List.flatMap_append, List.flatMap_cons,
    List.countP_append, List.countP_append, countP_flatMap_missingOf_eq_zero hbefore,
    countP_flatMap_missingOf_eq_zero hafter, Nat.zero_add, Nat.add_zero]

/-- Below a head the arguments are counted. -/
theorem countP_map_wrap (ws : List Shape) (v : Value) :
    (ws.map (wrap (ty.ref c))).countP (·.holds (.con c.name [v])) = ws.countP (·.holds v) := by
  rw [List.countP_map]
  refine List.countP_congr fun w _ => ?_
  simp [TypeDef.ref]

theorem any_holds_of_any (hany : shapes.any isAny = true) (v : Value) :
    shapes.any (·.holds v) = true := by
  obtain ⟨s, hs, hsany⟩ := List.any_eq_true.mp hany
  refine List.any_eq_true.mpr ⟨s, hs, ?_⟩
  cases s with
  | any => rfl
  | bare d => exact absurd hsany (by simp [isAny])
  | wrap d arg => exact absurd hsany (by simp [isAny])

/-- It is enough to count at the head of a value, and only for shapes without `any`. -/
theorem countP_missing_of_countP_missingOf (hsig : sig.Distinct) (hty : ty ∈ sig.types)
    (hc : c ∈ ty.ctors) {args : List Value}
    (h : shapes.any isAny = false →
      (missingOf sig ty shapes c).countP (·.holds (.con c.name args)) =
        if shapes.any (·.holds (.con c.name args)) then 0 else 1) :
    (missing sig ty shapes).countP (·.holds (.con c.name args)) =
      if shapes.any (·.holds (.con c.name args)) then 0 else 1 := by
  -- with `any` among the shapes nothing is missing and all values are held
  cases hany : shapes.any isAny with
  | true => rw [missing_of_any hany, if_pos (any_holds_of_any hany _), List.countP_nil]
  | false => rw [countP_missing_con hsig hty hc hany, h hany]

/-- **Counting lemma.** Of the missing shapes none holds a value that is covered, and one holds
a value that is not. -/
theorem countP_holds_missing {v : Value} (hsig : sig.Distinct) (hv : v.HasType sig ty)
    (hty : ty ∈ sig.types) (hs : ∀ s ∈ shapes, s.Fits sig ty) :
    (missing sig ty shapes).countP (·.holds v) = if shapes.any (·.holds v) then 0 else 1 := by
  -- on the value, for all shapes: below a head there are other shapes and a smaller value
  induction hv generalizing shapes with
  | @bare ty c hc hfield =>
    refine countP_missing_of_countP_missingOf hsig hty hc fun hany => ?_
    rw [any_holds_bare hs hany hsig hty hc hfield]
    cases hnamed : shapes.any (names (ty.ref c)) with
    | true =>
      rw [missingOf_of_named_closed hnamed (Signature.fieldType?_eq_none_of_field hfield)]
      rfl
    | false =>
      rw [missingOf_of_not_named hnamed, whole_of_field_none hfield]
      simp [TypeDef.ref]
  | @wrap ty fieldTy c v hc hfield hv ih =>
    refine countP_missing_of_countP_missingOf hsig hty hc fun hany => ?_
    rw [any_holds_wrap hs hany hsig hty hc hfield]
    cases hnamed : shapes.any (names (ty.ref c)) with
    | true =>
      -- the count goes on below the head, where the induction hypothesis has the answer
      rw [missingOf_of_named hnamed hfield, countP_map_wrap]
      exact ih (Signature.mem_types_of_fieldType? hfield)
        (fits_of_mem_argsUnder hs hsig hty hc hfield)
    | false =>
      -- nothing is headed by the constructor, so nothing stands below it
      rw [missingOf_of_not_named hnamed, argsUnder_eq_nil_of_not_named hnamed,
        whole_of_field_isSome (Signature.field_isSome_of_fieldType? hfield)]
      simp [TypeDef.ref]
  | @foreign ty c mark hc hsome hnone =>
    refine countP_missing_of_countP_missingOf hsig hty hc fun hany => ?_
    rw [any_holds_foreign hs hany hsig hty hc hsome hnone]
    cases hnamed : shapes.any (names (ty.ref c)) with
    | true =>
      rw [missingOf_of_named_closed hnamed hnone]
      rfl
    | false =>
      rw [missingOf_of_not_named hnamed, whole_of_field_isSome hsome]
      simp [TypeDef.ref]

/-- Where nothing is missing, every value is held. -/
theorem any_holds_of_missing_eq_nil {v : Value} (hsig : sig.Distinct) (hv : v.HasType sig ty)
    (hty : ty ∈ sig.types) (hs : ∀ s ∈ shapes, s.Fits sig ty)
    (hnil : missing sig ty shapes = []) : shapes.any (·.holds v) = true := by
  -- a value that no shape holds would be counted in the empty list
  have hcount := countP_holds_missing hsig hv hty hs
  rw [hnil, List.countP_nil] at hcount
  by_contra hheld
  rw [if_neg hheld] at hcount
  exact absurd hcount (by simp)

/-- A value that a missing shape holds is held by none of the given shapes. -/
theorem any_holds_eq_false_of_mem_missing {v : Value} {w : Shape} (hsig : sig.Distinct)
    (hv : v.HasType sig ty) (hty : ty ∈ sig.types) (hs : ∀ s ∈ shapes, s.Fits sig ty)
    (hw : w ∈ missing sig ty shapes) (hholds : w.holds v = true) :
    shapes.any (·.holds v) = false := by
  have hcount := countP_holds_missing hsig hv hty hs
  -- a value that is held would be counted zero times
  have hpos : 0 < (missing sig ty shapes).countP (·.holds v) :=
    List.countP_pos_iff.mpr ⟨w, hw, hholds⟩
  rw [Bool.eq_false_iff]
  intro hheld
  rw [if_pos hheld] at hcount
  omega

/-- The missing shapes of one constructor exclude each other as soon as those below it do. -/
theorem countP_missingOf_le_one {head : String} {args : List Value}
    (ih : shapes.any (names (ty.ref c)) = true → ∀ fieldTy, sig.fieldType? c = some fieldTy →
      ∀ v, (missing sig fieldTy (argsUnder (ty.ref c) shapes)).countP (·.holds v) ≤ 1) :
    (missingOf sig ty shapes c).countP (·.holds (.con head args)) ≤ 1 := by
  cases hnamed : shapes.any (names (ty.ref c)) with
  | false =>
    rw [missingOf_of_not_named hnamed]
    exact List.countP_le_length
  | true =>
    cases hfield : sig.fieldType? c with
    | none =>
      rw [missingOf_of_named_closed hnamed hfield]
      exact Nat.zero_le 1
    | some fieldTy =>
      rw [missingOf_of_named hnamed hfield, List.countP_map]
      match args with
      | [v] =>
        -- holding the whole value means holding its argument
        refine Nat.le_trans (List.countP_mono_left fun w _ hw => ?_) (ih hnamed fieldTy hfield v)
        have hw : (wrap (ty.ref c) w).holds (.con head [v]) = true := hw
        rw [holds_wrap_con, Bool.and_eq_true] at hw
        exact hw.2
      | [] =>
        rw [List.countP_eq_zero.mpr fun w _ => by simp [holds]]
        exact Nat.zero_le 1
      | _ :: _ :: _ =>
        rw [List.countP_eq_zero.mpr fun w _ => by simp [holds]]
        exact Nat.zero_le 1

/-- **Missing shapes exclude each other.** No value, of whatever type, is held by two of them,
and the given shapes need not fit for this. -/
theorem countP_holds_missing_le_one (hsig : sig.Distinct) (hty : ty ∈ sig.types) (v : Value) :
    (missing sig ty shapes).countP (·.holds v) ≤ 1 := by
  induction ty, shapes using missing.induct generalizing v with
  | case1 ty shapes hany =>
    rw [missing_of_any hany]
    exact Nat.zero_le 1
  | case2 ty shapes hany ih =>
    have hany : shapes.any isAny = false := Bool.eq_false_iff.mpr hany
    cases v with
    | foreign mark =>
      -- a foreign value has no head, and every missing shape asks for one
      have hzero : (missing sig ty shapes).countP (·.holds (.foreign mark)) = 0 := by
        rw [List.countP_eq_zero]
        intro w hw hholds
        have hw := isAny_eq_false_of_mem_missing hw
        cases w <;> simp_all [holds, isAny]
      rw [hzero]
      exact Nat.zero_le 1
    | con head args =>
      -- the value may be of no type at all, with a head that the type does not have
      by_cases hhead : ∃ c ∈ ty.ctors, c.name = head
      · obtain ⟨c, hc, rfl⟩ := hhead
        rw [countP_missing_con hsig hty hc hany]
        exact countP_missingOf_le_one fun hnamed fieldTy hfield =>
          ih c hnamed fieldTy (Signature.mem_types_of_fieldType? hfield)
      · have hne : ∀ d ∈ ty.ctors, d.name ≠ head := fun d hd heq => hhead ⟨d, hd, heq⟩
        rw [missing_eq_flatMap hany, countP_flatMap_missingOf_eq_zero hne]
        exact Nat.zero_le 1

/-! ### The partition -/

/-- **The missing shapes partition the uncovered values.** In the signature of a program, take
shapes that fit a type. A value of the type is held by none of them exactly if it is held by
exactly one of the missing shapes, and no value is held by two missing shapes. -/
theorem unheld_iff_countP_missing_eq_one (p : Program) {ty : TypeDef}
    (hty : ty ∈ p.signature.types) {shapes : List Shape}
    (hs : ∀ s ∈ shapes, s.Fits p.signature ty) {v : Value} (hv : v.HasType p.signature ty) :
    ((∀ s ∈ shapes, s.holds v = false) ↔
        (missing p.signature ty shapes).countP (·.holds v) = 1) ∧
      ∀ u : Value, (missing p.signature ty shapes).countP (·.holds u) ≤ 1 := by
  have hsig : p.signature.Distinct := p.signature_distinct
  refine ⟨?_, countP_holds_missing_le_one hsig hty⟩
  rw [countP_holds_missing hsig hv hty hs]
  cases hheld : shapes.any (·.holds v) with
  | false =>
    rw [List.any_eq_false] at hheld
    exact iff_of_true (fun s hmem => Bool.eq_false_iff.mpr (hheld s hmem)) rfl
  | true =>
    obtain ⟨s, hmem, hholds⟩ := List.any_eq_true.mp hheld
    refine iff_of_false (fun h => ?_) (by simp)
    rw [h s hmem] at hholds
    exact absurd hholds (by simp)

/-! ### A grove

Two types that refer to each other, with a field of a type that is not declared. -/

/-- The type of trees: a leaf, a node over a forest, or a graft whose scion has no declared
type. -/
def tree : TypeDef :=
  ⟨"Tree", default,
    [⟨"Leaf", default, none⟩, ⟨"Node", default, some "Forest"⟩, ⟨"Graft", default, some "Scion"⟩]⟩

/-- The type of forests: bare ground, or a tree that stands on it. -/
def forest : TypeDef :=
  ⟨"Forest", default, [⟨"Bare", default, none⟩, ⟨"Grown", default, some "Tree"⟩]⟩

/-- The program that declares trees and forests. -/
def grove : Program :=
  ⟨[.enumDecl ⟨default, ⟨"Tree", default⟩,
      [⟨default, ⟨"Leaf", default⟩, none⟩, ⟨default, ⟨"Node", default⟩, some ⟨"Forest", default⟩⟩,
        ⟨default, ⟨"Graft", default⟩, some ⟨"Scion", default⟩⟩]⟩,
    .enumDecl ⟨default, ⟨"Forest", default⟩,
      [⟨default, ⟨"Bare", default⟩, none⟩,
        ⟨default, ⟨"Grown", default⟩, some ⟨"Tree", default⟩⟩]⟩]⟩

/-- The shapes of leaves, of nodes over something grown, and of grafts. -/
def groveShapes : List Shape :=
  [bare ⟨"Tree", "Leaf"⟩, wrap ⟨"Tree", "Node"⟩ (wrap ⟨"Forest", "Grown"⟩ any),
    wrap ⟨"Tree", "Graft"⟩ any]

theorem node_mem_tree : (⟨"Node", default, some "Forest"⟩ : CtorDef) ∈ tree.ctors := by decide

theorem fieldType?_node :
    grove.signature.fieldType? ⟨"Node", default, some "Forest"⟩ = some forest := by decide

theorem fits_groveShapes : ∀ s ∈ groveShapes, s.Fits grove.signature tree := by
  intro s hs
  have hleaf : (⟨"Leaf", default, none⟩ : CtorDef) ∈ tree.ctors := by decide
  have hgraft : (⟨"Graft", default, some "Scion"⟩ : CtorDef) ∈ tree.ctors := by decide
  have hgrown : (⟨"Grown", default, some "Tree"⟩ : CtorDef) ∈ forest.ctors := by decide
  have hfield : grove.signature.fieldType? ⟨"Grown", default, some "Tree"⟩ = some tree := by
    decide
  simp only [groveShapes, List.mem_cons, List.not_mem_nil, or_false] at hs
  rcases hs with rfl | rfl | rfl
  · exact .bare hleaf rfl
  · exact .wrap node_mem_tree fieldType?_node (.wrap hgrown hfield .any)
  · exact .foreign hgraft rfl (by decide)

/-- A node over bare ground is left out of the shapes above, so it is missing exactly once. -/
theorem grove_bare_node_missing_once :
    (∀ s ∈ groveShapes, s.holds (.con "Node" [.con "Bare" []]) = false) ∧
      (missing grove.signature tree groveShapes).countP
        (·.holds (.con "Node" [.con "Bare" []])) = 1 := by
  have hbare : (⟨"Bare", default, none⟩ : CtorDef) ∈ forest.ctors := by decide
  have hv : (Value.con "Node" [.con "Bare" []]).HasType grove.signature tree :=
    .wrap node_mem_tree fieldType?_node (.bare hbare rfl)
  have hheld : ∀ s ∈ groveShapes, s.holds (.con "Node" [.con "Bare" []]) = false := by decide
  exact ⟨hheld,
    (unheld_iff_countP_missing_eq_one grove (by decide) fits_groveShapes hv).1.mp hheld⟩

end MatchCheck.Shape
