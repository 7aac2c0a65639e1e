import MatchCheck.Proofs.Coverage.Agreement

/-!
# Removing all unreachable arms at once

An arm is judged against all arms in front of it, also against those that are to be removed
themselves. Still the unreachable arms can be removed together: every value is met by the same arm
first, the same cases are missing in the same order, and no arm that stays is unreachable among
those that stay (`coverage_eq_of_unreachable_removed`).

What carries this is that shapes are known from their missing cases, as far as coverage goes. If two
lists of shapes miss the same cases, then they do so with any further shapes behind them
(`missing_append_congr`), and the same shapes are useful behind both (`useful_eq_of_missing_eq`). So
one equation is kept up from arm to arm: the arms that stay miss what all arms miss. The part of a
constructor can be read off the list of missing cases by the head (`filter_names_missing`), which
lets the equation go down into the arguments.
-/

namespace MatchCheck.Shape

variable {sig : Signature} {ty fieldTy : TypeDef} {c : CtorDef} {xs ys zs : List Shape}

/-! ### Shapes that miss the same cases -/

/-- The part of a constructor is what its head selects from the missing cases. -/
theorem filter_names_missing (hsig : sig.Distinct) (hty : ty ∈ sig.types) (hc : c ∈ ty.ctors)
    (hany : xs.any isAny = false) :
    (missing sig ty xs).filter (names (ty.ref c)) = missingOf sig ty xs c := by
  obtain ⟨before, after, heq, hbefore, hafter⟩ := Signature.exists_split_ctors hsig hty hc
  -- the parts of all other constructors are headed by other names
  have hother : ∀ ds : List CtorDef, (∀ d ∈ ds, d.name ≠ c.name) →
      (ds.flatMap (missingOf sig ty xs)).filter (names (ty.ref c)) = [] := by
    intro ds hds
    rw [List.filter_eq_nil_iff]
    intro w hw hnames
    obtain ⟨d, hd, hw⟩ := List.mem_flatMap.mp hw
    exact hds d hd (congrArg CtorRef.name (names_inj (names_of_mem_missingOf hw) hnames))
  rw [missing_eq_flatMap hany, heq, List.flatMap_append, List.flatMap_cons, List.filter_append,
    List.filter_append, hother before hbefore, hother after hafter, List.nil_append,
    List.append_nil, List.filter_eq_self]
  exact fun w hw => names_of_mem_missingOf hw

theorem any_names_eq_of_missingOf_eq (h : missingOf sig ty xs c = missingOf sig ty ys c) :
    xs.any (names (ty.ref c)) = ys.any (names (ty.ref c)) := by
  -- a constructor that no shape names is missing whole, which it never is once it is named
  cases hxs : xs.any (names (ty.ref c)) with
  | true =>
    symm
    by_contra hys
    rw [missingOf_of_not_named (Bool.eq_false_iff.mpr hys)] at h
    exact missingOf_ne_whole hxs h
  | false =>
    symm
    rw [Bool.eq_false_iff]
    intro hys
    rw [missingOf_of_not_named hxs] at h
    exact missingOf_ne_whole hys h.symm

/-- Where nothing is missing, nothing is missing with further shapes. -/
theorem missing_append_eq_nil (h : missing sig ty xs = []) : missing sig ty (xs ++ zs) = [] := by
  induction ty, xs using missing.induct generalizing zs with
  | case1 ty xs hany =>
    refine missing_of_any ?_
    rw [List.any_append, hany, Bool.true_or]
  | case2 ty xs hany ih =>
    have hany : xs.any isAny = false := Bool.eq_false_iff.mpr hany
    cases hzs : (xs ++ zs).any isAny with
    | true => exact missing_of_any hzs
    | false =>
      rw [missing_eq_flatMap hany, List.flatMap_eq_nil_iff] at h
      rw [missing_eq_flatMap hzs, List.flatMap_eq_nil_iff]
      intro c hc
      have hpart := h c hc
      -- every constructor is named, or it would be missing whole, and stays so
      cases hnamed : xs.any (names (ty.ref c)) with
      | false =>
        rw [missingOf_of_not_named hnamed] at hpart
        exact absurd hpart (List.cons_ne_nil _ _)
      | true =>
        have hnow : (xs ++ zs).any (names (ty.ref c)) = true := by
          rw [List.any_append, hnamed, Bool.true_or]
        cases hfield : sig.fieldType? c with
        | none => exact missingOf_of_named_closed hnow hfield
        | some fieldTy =>
          rw [missingOf_of_named hnamed hfield, List.map_eq_nil_iff] at hpart
          rw [missingOf_of_named hnow hfield, argsUnder_append, ih c hnamed fieldTy hpart,
            List.map_nil]

/-- A part depends on whether its constructor is named and on the arguments below it. -/
theorem missingOf_append_congr (h : missingOf sig ty xs c = missingOf sig ty ys c)
    (hbelow : xs.any (names (ty.ref c)) = true → ∀ fieldTy, sig.fieldType? c = some fieldTy →
      missing sig fieldTy (argsUnder (ty.ref c) xs) =
        missing sig fieldTy (argsUnder (ty.ref c) ys) →
      missing sig fieldTy (argsUnder (ty.ref c) (xs ++ zs)) =
        missing sig fieldTy (argsUnder (ty.ref c) (ys ++ zs))) :
    missingOf sig ty (xs ++ zs) c = missingOf sig ty (ys ++ zs) c := by
  have hnames := any_names_eq_of_missingOf_eq h
  have happend : (xs ++ zs).any (names (ty.ref c)) = (ys ++ zs).any (names (ty.ref c)) := by
    rw [List.any_append, List.any_append, hnames]
  cases hxs : xs.any (names (ty.ref c)) with
  | false =>
    -- neither list has arguments below the head, so the further shapes decide alone
    have hys : ys.any (names (ty.ref c)) = false := hnames.symm.trans hxs
    unfold missingOf
    rw [happend, argsUnder_append, argsUnder_append, argsUnder_eq_nil_of_not_named hxs,
      argsUnder_eq_nil_of_not_named hys]
  | true =>
    have hnow : (xs ++ zs).any (names (ty.ref c)) = true := by
      rw [List.any_append, hxs, Bool.true_or]
    cases hfield : sig.fieldType? c with
    | none =>
      rw [missingOf_of_named_closed hnow hfield,
        missingOf_of_named_closed (happend.symm.trans hnow) hfield]
    | some fieldTy =>
      rw [missingOf_of_named hxs hfield, missingOf_of_named (hnames.symm.trans hxs) hfield] at h
      have hargs := (List.map_inj_right fun w w' heq => (wrap.inj heq).2).mp h
      rw [missingOf_of_named hnow hfield, missingOf_of_named (happend.symm.trans hnow) hfield,
        hbelow hxs fieldTy hfield hargs]

/-- **Missing cases decide coverage.** Shapes that miss the same cases still do so with the same
shapes behind them. -/
theorem missing_append_congr (hsig : sig.Distinct) (hty : ty ∈ sig.types)
    (h : missing sig ty xs = missing sig ty ys) :
    missing sig ty (xs ++ zs) = missing sig ty (ys ++ zs) := by
  -- along the recursion on the first list; the second is only known by what it misses
  induction ty, xs using missing.induct generalizing ys zs with
  | case1 ty xs hany =>
    rw [missing_of_any hany] at h
    rw [missing_append_eq_nil (missing_of_any hany), missing_append_eq_nil h.symm]
  | case2 ty xs hany ih =>
    have hany : xs.any isAny = false := Bool.eq_false_iff.mpr hany
    cases hys : ys.any isAny with
    | true =>
      rw [missing_of_any hys] at h
      rw [missing_append_eq_nil h, missing_append_eq_nil (missing_of_any hys)]
    | false =>
      have hxy : (xs ++ zs).any isAny = (ys ++ zs).any isAny := by
        rw [List.any_append, List.any_append, hany, hys]
      cases hzs : (xs ++ zs).any isAny with
      | true => rw [missing_of_any hzs, missing_of_any (hxy.symm.trans hzs)]
      | false =>
        rw [missing_eq_flatMap hzs, missing_eq_flatMap (hxy.symm.trans hzs)]
        refine List.flatMap_congr fun c hc => missingOf_append_congr ?_ ?_
        · rw [← filter_names_missing hsig hty hc hany, ← filter_names_missing hsig hty hc hys, h]
        · intro hnamed fieldTy hfield hargs
          rw [argsUnder_append, argsUnder_append]
          exact ih c hnamed fieldTy (Signature.mem_types_of_fieldType? hfield) hargs

/-- Behind shapes that miss the same cases the same shapes are useful. -/
theorem useful_eq_of_missing_eq {s : Shape} (hsig : sig.Distinct) (hty : ty ∈ sig.types)
    (hs : s.Fits sig ty) (h : missing sig ty xs = missing sig ty ys) :
    useful sig ty xs s = useful sig ty ys s := by
  -- usefulness is told by what is missing before and after
  have hagree : useful sig ty xs s = false ↔ useful sig ty ys s = false := by
    rw [← missing_append_eq_iff_useful hsig hs hty, ← missing_append_eq_iff_useful hsig hs hty,
      missing_append_congr hsig hty h, h]
  cases huse : useful sig ty ys s with
  | false => exact hagree.mpr huse
  | true =>
    rw [← Bool.not_eq_false, hagree, huse]
    simp

/-! ### Arms that stay -/

variable {α : Type} {earlier kept : List Shape} {arms : List (α × Shape)} {v : Value}

/-- The shapes that hold a value beyond those before them, each with what it was given with. -/
def reachableFrom (sig : Signature) (ty : TypeDef) (earlier : List Shape) :
    List (α × Shape) → List (α × Shape)
  | [] => []
  | (a, s) :: rest =>
    let later := reachableFrom sig ty (earlier ++ [s]) rest
    if useful sig ty earlier s then (a, s) :: later else later

theorem reachableFrom_of_useful {x : α × Shape} (h : useful sig ty earlier x.2 = true) :
    reachableFrom sig ty earlier (x :: arms) =
      x :: reachableFrom sig ty (earlier ++ [x.2]) arms := by
  rw [reachableFrom, if_pos h]

theorem reachableFrom_of_not_useful {x : α × Shape} (h : useful sig ty earlier x.2 = false) :
    reachableFrom sig ty earlier (x :: arms) = reachableFrom sig ty (earlier ++ [x.2]) arms := by
  rw [reachableFrom, if_neg (by rw [h]; simp)]

theorem unreachableFrom_of_useful {x : α × Shape} (h : useful sig ty earlier x.2 = true) :
    unreachableFrom sig ty earlier (x :: arms) =
      unreachableFrom sig ty (earlier ++ [x.2]) arms := by
  rw [unreachableFrom, if_pos h]

theorem unreachableFrom_of_not_useful {x : α × Shape} (h : useful sig ty earlier x.2 = false) :
    unreachableFrom sig ty earlier (x :: arms) =
      x :: unreachableFrom sig ty (earlier ++ [x.2]) arms := by
  rw [unreachableFrom, if_neg (by rw [h]; simp)]

theorem reachableFrom_sublist (earlier : List Shape) (arms : List (α × Shape)) :
    (reachableFrom sig ty earlier arms).Sublist arms := by
  -- for all earlier shapes, which grow along the arms
  induction arms generalizing earlier with
  | nil => exact .slnil
  | cons x arms ih =>
    cases huse : useful sig ty earlier x.2 with
    | true =>
      rw [reachableFrom_of_useful huse]
      exact (ih _).cons_cons x
    | false =>
      rw [reachableFrom_of_not_useful huse]
      exact (ih _).cons x

/-- The arms that stay and the unreachable ones are all arms. -/
theorem reachableFrom_append_unreachableFrom_perm (earlier : List Shape)
    (arms : List (α × Shape)) :
    (reachableFrom sig ty earlier arms ++ unreachableFrom sig ty earlier arms).Perm arms := by
  induction arms generalizing earlier with
  | nil => exact .nil
  | cons x arms ih =>
    cases huse : useful sig ty earlier x.2 with
    | true =>
      rw [reachableFrom_of_useful huse, unreachableFrom_of_useful huse]
      exact (ih _).cons x
    | false =>
      rw [reachableFrom_of_not_useful huse, unreachableFrom_of_not_useful huse]
      -- an unreachable arm goes behind all that are kept
      exact List.perm_middle.trans ((ih _).cons x)

/-- **The arms that stay miss what all arms miss**, behind shapes that miss the same already. -/
theorem missing_append_reachableFrom (hsig : sig.Distinct) (hty : ty ∈ sig.types)
    (hfits : ∀ x ∈ arms, x.2.Fits sig ty) (h : missing sig ty kept = missing sig ty earlier) :
    missing sig ty (kept ++ (reachableFrom sig ty earlier arms).map (·.2)) =
      missing sig ty (earlier ++ arms.map (·.2)) := by
  induction arms generalizing earlier kept with
  | nil => simpa [reachableFrom] using h
  | cons x arms ih =>
    obtain ⟨hs, hrest⟩ := List.forall_mem_cons.mp hfits
    rw [List.map_cons, List.append_cons earlier x.2]
    cases huse : useful sig ty earlier x.2 with
    | true =>
      rw [reachableFrom_of_useful huse, List.map_cons, List.append_cons kept x.2]
      exact ih hrest (missing_append_congr hsig hty h)
    | false =>
      -- what is removed changes nothing, so that without it the equation still holds
      have hsame : missing sig ty (earlier ++ [x.2]) = missing sig ty earlier :=
        (missing_append_eq_iff_useful hsig hs hty).mpr huse
      rw [reachableFrom_of_not_useful huse]
      exact ih hrest (h.trans hsame.symm)

/-- **No arm that stays is unreachable among those that stay.** -/
theorem unreachableFrom_reachableFrom (hsig : sig.Distinct) (hty : ty ∈ sig.types)
    (hfits : ∀ x ∈ arms, x.2.Fits sig ty) (h : missing sig ty kept = missing sig ty earlier) :
    unreachableFrom sig ty kept (reachableFrom sig ty earlier arms) = [] := by
  -- the invariant: the arms kept so far leave out just what all arms so far leave out
  induction arms generalizing earlier kept with
  | nil => rfl
  | cons x arms ih =>
    obtain ⟨hs, hrest⟩ := List.forall_mem_cons.mp hfits
    cases huse : useful sig ty earlier x.2 with
    | true =>
      have hkept : useful sig ty kept x.2 = true :=
        (useful_eq_of_missing_eq hsig hty hs h).trans huse
      rw [reachableFrom_of_useful huse, unreachableFrom_of_useful hkept]
      exact ih hrest (missing_append_congr hsig hty h)
    | false =>
      -- the arm goes, and without it the same is missing
      have hsame : missing sig ty (earlier ++ [x.2]) = missing sig ty earlier :=
        (missing_append_eq_iff_useful hsig hs hty).mpr huse
      rw [reachableFrom_of_not_useful huse]
      exact ih hrest (h.trans hsame.symm)

/-- No arm is unreachable exactly if each is useful behind those in front of it. -/
theorem unreachableFrom_eq_nil_iff (earlier : List Shape) (arms : List (α × Shape)) :
    unreachableFrom sig ty earlier arms = [] ↔
      ∀ before x after, arms = before ++ x :: after →
        useful sig ty (earlier ++ before.map (·.2)) x.2 = true := by
  -- arm by arm; each of them joins the earlier shapes of the next
  induction arms generalizing earlier with
  | nil => simp [unreachableFrom]
  | cons y arms ih =>
    cases huse : useful sig ty earlier y.2 with
    | false =>
      rw [unreachableFrom_of_not_useful huse]
      refine iff_of_false (List.cons_ne_nil _ _) fun h => ?_
      have hfirst := h [] y arms rfl
      rw [List.map_nil, List.append_nil, huse] at hfirst
      cases hfirst
    | true =>
      rw [unreachableFrom_of_useful huse, ih]
      constructor
      · intro h before x after heq
        -- the arm in question is the first one, or the first one stands before it
        cases before with
        | nil =>
          obtain ⟨rfl, -⟩ := List.cons.inj heq
          simpa using huse
        | cons z before =>
          obtain ⟨rfl, hrest⟩ := List.cons.inj heq
          rw [List.map_cons, List.append_cons]
          exact h before x after hrest
      · intro h before x after heq
        have hx := h (y :: before) x after (by rw [heq, List.cons_append])
        rwa [List.map_cons, List.append_cons] at hx

/-- **Every value is met by the same arm first**, if no shape in front of the arms holds it. -/
theorem find?_reachableFrom (hsig : sig.Distinct) (hty : ty ∈ sig.types)
    (he : ∀ s ∈ earlier, s.Fits sig ty) (hfits : ∀ x ∈ arms, x.2.Fits sig ty)
    (hv : v.HasType sig ty) (hnew : earlier.any (·.holds v) = false) :
    (reachableFrom sig ty earlier arms).find? (fun x => x.2.holds v) =
      arms.find? (fun x => x.2.holds v) := by
  induction arms generalizing earlier with
  | nil => rfl
  | cons x arms ih =>
    obtain ⟨hs, hrest⟩ := List.forall_mem_cons.mp hfits
    have hmore : ∀ s ∈ earlier ++ [x.2], s.Fits sig ty :=
      List.forall_mem_append.mpr ⟨he, List.forall_mem_singleton.mpr hs⟩
    cases huse : useful sig ty earlier x.2 with
    | true =>
      rw [reachableFrom_of_useful huse, List.find?_cons, List.find?_cons]
      cases hholds : x.2.holds v with
      | true => rfl
      | false => exact ih hmore hrest (by simp [hnew, hholds])
    | false =>
      -- what the arm holds is held by an earlier shape, so it does not hold this value
      have hholds : x.2.holds v = false := by
        by_contra htrue
        have hheld := any_holds_of_useful_eq_false hsig hs hty he huse hv (by simpa using htrue)
        rw [hnew] at hheld
        cases hheld
      rw [reachableFrom_of_not_useful huse, List.find?_cons, hholds]
      exact ih hmore hrest (by simp [hnew, hholds])

/-- **Unreachable arms can be removed at once.** In the signature of a program, take arms whose
shapes fit a type, and keep those that are useful behind all arms in front of them. The others are
the arms that are reported. Each value of the type is met first by the same arm, the same cases are
missing in the same order, every arm that stays is useful behind those that stay in front of it, and
so nothing is reported a second time. -/
theorem coverage_eq_of_unreachable_removed (p : Program) {ty : TypeDef}
    (hty : ty ∈ p.signature.types) {α : Type} {arms : List (α × Shape)}
    (hfits : ∀ x ∈ arms, x.2.Fits p.signature ty) :
    let kept := reachableFrom p.signature ty [] arms
    (kept.Sublist arms ∧ (kept ++ unreachableFrom p.signature ty [] arms).Perm arms) ∧
      (∀ v : Value, v.HasType p.signature ty →
        kept.find? (fun x => x.2.holds v) = arms.find? (fun x => x.2.holds v)) ∧
      missing p.signature ty (kept.map (·.2)) = missing p.signature ty (arms.map (·.2)) ∧
      (∀ before x after, kept = before ++ x :: after →
        useful p.signature ty (before.map (·.2)) x.2 = true) ∧
      unreachableFrom p.signature ty [] kept = [] := by
  intro kept
  have hsig : p.signature.Distinct := p.signature_distinct
  have hnone : unreachableFrom p.signature ty [] kept = [] :=
    unreachableFrom_reachableFrom hsig hty hfits rfl
  -- nothing stands in front of the first arm
  refine ⟨⟨reachableFrom_sublist [] arms, reachableFrom_append_unreachableFrom_perm [] arms⟩,
    fun v hv => ?_, ?_, (unreachableFrom_eq_nil_iff [] kept).mp hnone, hnone⟩
  · exact find?_reachableFrom hsig hty (List.forall_mem_nil _) hfits hv rfl
  · exact missing_append_reachableFrom hsig hty hfits (Eq.refl (missing p.signature ty []))

/-- Numbered arms over trees. Of the two for grafts the second can never be reached. The last arm is
covered by one that can never be reached either. -/
def overgrown : List (Nat × Shape) :=
  [(0, wrap ⟨"Tree", "Graft"⟩ any), (1, wrap ⟨"Tree", "Node"⟩ (wrap ⟨"Forest", "Grown"⟩ any)),
    (2, wrap ⟨"Tree", "Node"⟩ (wrap ⟨"Forest", "Grown"⟩ (wrap ⟨"Tree", "Node"⟩ any))),
    (3, wrap ⟨"Tree", "Graft"⟩ any), (4, bare ⟨"Tree", "Leaf"⟩),
    (5, wrap ⟨"Tree", "Node"⟩ (wrap ⟨"Forest", "Grown"⟩ (wrap ⟨"Tree", "Node"⟩
      (bare ⟨"Forest", "Bare"⟩))))]

theorem fits_overgrown : ∀ x ∈ overgrown, x.2.Fits grove.signature tree := by
  have hleaf : (⟨"Leaf", default, none⟩ : CtorDef) ∈ tree.ctors := by decide
  have hgraft : (⟨"Graft", default, some "Scion"⟩ : CtorDef) ∈ tree.ctors := by decide
  have hbare : (⟨"Bare", default, none⟩ : CtorDef) ∈ forest.ctors := by decide
  have hgrown : (⟨"Grown", default, some "Tree"⟩ : CtorDef) ∈ forest.ctors := by decide
  have htree : grove.signature.fieldType? ⟨"Grown", default, some "Tree"⟩ = some tree := by decide
  have hscion : (wrap ⟨"Tree", "Graft"⟩ any).Fits grove.signature tree :=
    .foreign hgraft rfl (by decide)
  have hnode : ∀ s : Shape, s.Fits grove.signature tree →
      (wrap ⟨"Tree", "Node"⟩ (wrap ⟨"Forest", "Grown"⟩ s)).Fits grove.signature tree :=
    fun s hs => .wrap node_mem_tree fieldType?_node (.wrap hgrown htree hs)
  simp only [overgrown, List.forall_mem_cons]
  exact ⟨hscion, hnode _ .any, hnode _ (.wrap node_mem_tree fieldType?_node .any), hscion,
    .bare hleaf rfl, hnode _ (.wrap node_mem_tree fieldType?_node (.bare hbare rfl)),
    List.forall_mem_nil _⟩

/-- Three arms stay. They meet every tree as all six did, and still miss the nodes over bare
ground. -/
theorem overgrown_pruned :
    (reachableFrom grove.signature tree [] overgrown).map (·.1) = [0, 1, 4] ∧
      (∀ v : Value, v.HasType grove.signature tree →
        (reachableFrom grove.signature tree [] overgrown).find? (fun x => x.2.holds v) =
          overgrown.find? (fun x => x.2.holds v)) ∧
      missing grove.signature tree
          ((reachableFrom grove.signature tree [] overgrown).map (·.2)) =
        [wrap ⟨"Tree", "Node"⟩ (bare ⟨"Forest", "Bare"⟩)] ∧
      unreachableFrom grove.signature tree []
        (reachableFrom grove.signature tree [] overgrown) = [] := by
  have hty : tree ∈ grove.signature.types := by decide
  obtain ⟨-, hfirst, hmissing, -, hnone⟩ :=
    coverage_eq_of_unreachable_removed grove hty fits_overgrown
  refine ⟨by decide +kernel, hfirst, hmissing.trans ?_, hnone⟩
  decide +kernel

end MatchCheck.Shape
