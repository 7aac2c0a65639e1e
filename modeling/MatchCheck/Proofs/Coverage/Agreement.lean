import MatchCheck.Proofs.Coverage.Useful

/-!
# Usefulness and missing cases agree

`Shape.useful` and `Shape.missing` go down into shapes each in its own way, and each has
its own short cuts. Still they decide the same thing: a shape is useful exactly if adding
it behind the earlier shapes changes the list of missing cases. This holds for types
without values as well, where a useful shape may hold nothing, so it does not follow from
what either of them says about values.

Adding a shape that is headed by a constructor changes only the part of the list that
belongs to this constructor (`missing_append_eq_iff`). There are three things the part can
become. Where the head is new, the part was the whole constructor before, which no list of
missing cases below the head can give back, since `any` is never missing. Where the head
occurred before, either the field decides, by induction, or there is nothing left to tell
apart and the part was empty already.
-/

namespace MatchCheck.Shape

variable {sig : Signature} {ty fieldTy : TypeDef} {c : CtorDef} {earlier : List Shape}
  {s : Shape}

/-! ### Adding one shape -/

theorem argsUnder_append (r : CtorRef) (xs ys : List Shape) :
    argsUnder r (xs ++ ys) = argsUnder r xs ++ argsUnder r ys :=
  List.filterMap_append

theorem argsUnder_singleton_wrap (r : CtorRef) (arg : Shape) :
    argsUnder r [wrap r arg] = [arg] := by
  simp [argsUnder, argUnder?]

theorem any_names_append (hs : s.names (ty.ref c) = true) :
    (earlier ++ [s]).any (names (ty.ref c)) = true := by
  rw [List.any_append, Bool.or_eq_true]
  exact Or.inr (by simpa using hs)

theorem any_isAny_append (hany : earlier.any isAny = false) (hs : s.isAny = false) :
    (earlier ++ [s]).any isAny = false := by
  rw [List.any_append, hany, Bool.false_or]
  simpa using hs

/-- A shape of another head leaves a constructor's part alone. -/
theorem missingOf_append_of_not_names (hs : s.names (ty.ref c) = false) :
    missingOf sig ty (earlier ++ [s]) c = missingOf sig ty earlier c := by
  have hnamed : (earlier ++ [s]).any (names (ty.ref c)) = earlier.any (names (ty.ref c)) := by
    simp [hs]
  have hargs : argsUnder (ty.ref c) [s] = [] := argsUnder_eq_nil_of_not_named (by simpa using hs)
  unfold missingOf
  rw [hnamed, argsUnder_append, hargs, List.append_nil]

/-- **One part changes.** A shape that is headed by a constructor changes the missing cases
exactly if it changes the part of that constructor. -/
theorem missing_append_eq_iff (hsig : sig.Distinct) (hty : ty ∈ sig.types) (hc : c ∈ ty.ctors)
    (hany : earlier.any isAny = false) (hs : s.names (ty.ref c) = true) :
    missing sig ty (earlier ++ [s]) = missing sig ty earlier ↔
      missingOf sig ty (earlier ++ [s]) c = missingOf sig ty earlier c := by
  obtain ⟨before, after, heq, hbefore, hafter⟩ := Signature.exists_split_ctors hsig hty hc
  have hother : ∀ d : CtorDef, d.name ≠ c.name →
      missingOf sig ty (earlier ++ [s]) d = missingOf sig ty earlier d := by
    intro d hd
    refine missingOf_append_of_not_names ?_
    rw [Bool.eq_false_iff]
    intro hsd
    exact hd (congrArg CtorRef.name (names_inj hsd hs))
  -- the parts around that of `c` are equal on both sides and cancel
  have hfront : before.flatMap (missingOf sig ty (earlier ++ [s])) =
      before.flatMap (missingOf sig ty earlier) :=
    List.flatMap_congr fun d hd => hother d (hbefore d hd)
  have hback : after.flatMap (missingOf sig ty (earlier ++ [s])) =
      after.flatMap (missingOf sig ty earlier) :=
    List.flatMap_congr fun d hd => hother d (hafter d hd)
  rw [missing_eq_flatMap hany,
    missing_eq_flatMap (any_isAny_append hany (isAny_eq_false_of_names hs)), heq,
    List.flatMap_append, List.flatMap_append, List.flatMap_cons, List.flatMap_cons, hfront, hback,
    List.append_cancel_left_eq, List.append_cancel_right_eq]

/-! ### The agreement -/

/-- Once a constructor is named, its part is no longer the whole constructor. -/
theorem missingOf_ne_whole (hnamed : earlier.any (names (ty.ref c)) = true) :
    missingOf sig ty earlier c ≠ [whole ty c] := by
  cases hfield : sig.fieldType? c with
  | none =>
    rw [missingOf_of_named_closed hnamed hfield]
    exact (List.cons_ne_nil _ _).symm
  | some fieldTy =>
    -- the whole constructor would come from `any` below the head, which is never missing
    rw [missingOf_of_named hnamed hfield,
      whole_of_field_isSome (Signature.field_isSome_of_fieldType? hfield)]
    intro heq
    obtain ⟨w, hw, hwrap⟩ := List.mem_map.mp (heq ▸ List.mem_singleton.mpr rfl)
    obtain rfl : w = any := (wrap.inj hwrap).2
    exact absurd (isAny_eq_false_of_mem_missing hw) (by simp [isAny])

/-- What is left to show of a shape under a head is that the two agree where the head occurred
before. -/
theorem missing_append_eq_iff_useful_of_names (hsig : sig.Distinct) (hty : ty ∈ sig.types)
    (hc : c ∈ ty.ctors) (hs : s.names (ty.ref c) = true)
    (hold : earlier.any isAny = false → earlier.any (names (ty.ref c)) = true →
      (missingOf sig ty (earlier ++ [s]) c = missingOf sig ty earlier c ↔
        useful sig ty earlier s = false)) :
    missing sig ty (earlier ++ [s]) = missing sig ty earlier ↔
      useful sig ty earlier s = false := by
  cases hany : earlier.any isAny with
  | true =>
    have hall : (earlier ++ [s]).any isAny = true := by
      rw [List.any_append, hany, Bool.true_or]
    exact iff_of_true ((missing_of_any hall).trans (missing_of_any hany).symm)
      (useful_of_any hany s)
  | false =>
    rw [missing_append_eq_iff hsig hty hc hany hs]
    cases hnamed : earlier.any (names (ty.ref c)) with
    | true => exact hold hany hnamed
    | false =>
      -- a head that did not occur is useful, and its part no longer is the whole constructor
      rw [missingOf_of_not_named hnamed, useful_of_not_named hany hs hnamed]
      exact iff_of_false (missingOf_ne_whole (any_names_append hs)) (by simp)

/-- The part of a constructor below which nothing is told apart is empty once it is named. -/
theorem missingOf_append_closed (hs : s.names (ty.ref c) = true)
    (hfield : sig.fieldType? c = none) : missingOf sig ty (earlier ++ [s]) c = [] :=
  missingOf_of_named_closed (any_names_append hs) hfield

/-- The part of a constructor over a declared type is what its arguments leave out. -/
theorem missingOf_append_wrap (hfield : sig.fieldType? c = some fieldTy) (arg : Shape) :
    missingOf sig ty (earlier ++ [wrap (ty.ref c) arg]) c =
      (missing sig fieldTy (argsUnder (ty.ref c) earlier ++ [arg])).map (wrap (ty.ref c)) := by
  rw [missingOf_of_named (any_names_append (names_wrap_ref.mpr rfl)) hfield, argsUnder_append,
    argsUnder_singleton_wrap]

/-- **Agreement.** A fitting shape is not useful exactly if it leaves the missing cases as they
were. Neither do the earlier shapes have to fit, nor do types have to have values. -/
theorem missing_append_eq_iff_useful (hsig : sig.Distinct) (hs : s.Fits sig ty)
    (hty : ty ∈ sig.types) :
    missing sig ty (earlier ++ [s]) = missing sig ty earlier ↔
      useful sig ty earlier s = false := by
  induction hs generalizing earlier with
  | @any ty =>
    have hall : (earlier ++ [any]).any isAny = true := by simp [isAny]
    rw [missing_of_any hall]
    cases hany : earlier.any isAny with
    | true => exact iff_of_true (missing_of_any hany).symm (useful_of_any hany any)
    | false =>
      rw [← Bool.not_eq_true, useful_any hany, not_not]
      exact eq_comm
  | @bare ty c hc hfield =>
    have hnames : (bare (ty.ref c)).names (ty.ref c) = true := names_bare_ref.mpr rfl
    have hnone : sig.fieldType? c = none := Signature.fieldType?_eq_none_of_field hfield
    refine missing_append_eq_iff_useful_of_names hsig hty hc hnames fun _ hnamed => ?_
    -- a constructor without a field is done with once it is named
    rw [missingOf_append_closed hnames hnone, missingOf_of_named_closed hnamed hnone]
    exact iff_of_true rfl (useful_bare hnamed)
  | @wrap ty fieldTy c arg hc hfield harg ih =>
    refine missing_append_eq_iff_useful_of_names hsig hty hc (names_wrap_ref.mpr rfl)
      fun hany hnamed => ?_
    -- both sides go below the head, and nothing is lost by putting the head back
    rw [missingOf_append_wrap hfield, missingOf_of_named hnamed hfield,
      useful_wrap hsig hty hc hany hnamed hfield,
      ← ih (Signature.mem_types_of_fieldType? hfield)]
    exact List.map_inj_right fun w w' heq => by simpa using heq
  | @foreign ty c hc hsome hnone =>
    have hnames : (wrap (ty.ref c) any).names (ty.ref c) = true := names_wrap_ref.mpr rfl
    refine missing_append_eq_iff_useful_of_names hsig hty hc hnames fun _ hnamed => ?_
    rw [missingOf_append_closed hnames hnone, missingOf_of_named_closed hnamed hnone]
    exact iff_of_true rfl (useful_wrap_closed hsig hty hc hnamed hnone any)

/-- **Useful shapes are those that change the missing cases.** In the signature of a program, a
shape that fits a type is useful behind earlier shapes exactly if adding it changes the list of
missing cases. A shape that is not useful changes neither this list nor the verdict. -/
theorem useful_iff_missing_append_ne (p : Program) {ty : TypeDef} (hty : ty ∈ p.signature.types)
    (earlier : List Shape) {s : Shape} (hs : s.Fits p.signature ty) :
    (useful p.signature ty earlier s = true ↔
        missing p.signature ty (earlier ++ [s]) ≠ missing p.signature ty earlier) ∧
      (useful p.signature ty earlier s = false →
        exhaustive p.signature ty (earlier ++ [s]) = exhaustive p.signature ty earlier ∧
          missing p.signature ty (earlier ++ [s]) = missing p.signature ty earlier) := by
  -- both halves follow from one equivalence
  have hagree : missing p.signature ty (earlier ++ [s]) = missing p.signature ty earlier ↔
      useful p.signature ty earlier s = false :=
    missing_append_eq_iff_useful p.signature_distinct hs hty
  refine ⟨?_, fun huse => ?_⟩
  · rw [Ne, hagree, Bool.not_eq_false]
  · have hsame := hagree.mpr huse
    refine ⟨?_, hsame⟩
    unfold exhaustive
    rw [hsame]

/-- Adding an arm for the grafts that are there already changes nothing in the grove, and adding
one for all nodes does. -/
theorem grove_missing_changes :
    (useful grove.signature tree groveShapes (wrap ⟨"Tree", "Graft"⟩ any) = false ∧
        missing grove.signature tree (groveShapes ++ [wrap ⟨"Tree", "Graft"⟩ any]) =
          missing grove.signature tree groveShapes) ∧
      useful grove.signature tree groveShapes (wrap ⟨"Tree", "Node"⟩ any) = true ∧
        missing grove.signature tree (groveShapes ++ [wrap ⟨"Tree", "Node"⟩ any]) ≠
          missing grove.signature tree groveShapes := by
  have hgraft : (wrap ⟨"Tree", "Graft"⟩ any).Fits grove.signature tree :=
    fits_groveShapes _ (by decide)
  have hnode : (wrap ⟨"Tree", "Node"⟩ any).Fits grove.signature tree :=
    .wrap node_mem_tree fieldType?_node .any
  have hold : useful grove.signature tree groveShapes (wrap ⟨"Tree", "Graft"⟩ any) = false := by
    decide +kernel
  have hnew : useful grove.signature tree groveShapes (wrap ⟨"Tree", "Node"⟩ any) = true := by
    decide +kernel
  have hty : tree ∈ grove.signature.types := by decide
  exact ⟨⟨hold, ((useful_iff_missing_append_ne grove hty groveShapes hgraft).2 hold).2⟩,
    hnew, (useful_iff_missing_append_ne grove hty groveShapes hnode).1.mp hnew⟩

end MatchCheck.Shape
