import MatchCheck.Proofs.Coverage.Useful

/-!
# Coverage depends on the set of shapes

Neither the order of shapes nor how often one of them is repeated has a part in coverage: two lists
with the same elements leave out the same cases, in the same order, and the same shapes are useful
behind them (`coverage_eq_of_same_shapes`). The shapes need not fit the type.

A list of shapes is read in two ways only: it is asked whether some element passes a test, and the
arguments under a constructor are collected. The answer to the first depends on the set of elements
(`any_eq_of_mem_iff`), and the second turns lists with the same elements into such lists again
(`mem_argsUnder_congr`).
-/

namespace MatchCheck.Shape

variable {sig : Signature} {ty : TypeDef} {xs ys : List Shape}

/-! ### What is read of a list -/

theorem any_eq_of_mem_iff (h : ∀ s, s ∈ xs ↔ s ∈ ys) (test : Shape → Bool) :
    xs.any test = ys.any test := by
  rw [Bool.eq_iff_iff, List.any_eq_true, List.any_eq_true]
  exact exists_congr fun s => and_congr_left fun _ => h s

/-- Below a constructor the lists have the same elements again. -/
theorem mem_argsUnder_congr (h : ∀ s, s ∈ xs ↔ s ∈ ys) (r : CtorRef) (arg : Shape) :
    arg ∈ argsUnder r xs ↔ arg ∈ argsUnder r ys := by
  rw [mem_argsUnder_iff, mem_argsUnder_iff]
  exact h (wrap r arg)

/-! ### Missing and useful shapes -/

/-- **The missing shapes depend on the set of shapes.** -/
theorem missing_congr (h : ∀ s, s ∈ xs ↔ s ∈ ys) : missing sig ty xs = missing sig ty ys := by
  -- along the recursion on the first list; the second only has to keep up with it
  induction ty, xs using missing.induct generalizing ys with
  | case1 ty xs hany =>
    rw [missing_of_any hany, missing_of_any ((any_eq_of_mem_iff h _).symm.trans hany)]
  | case2 ty xs hany ih =>
    have hany : xs.any isAny = false := Bool.eq_false_iff.mpr hany
    rw [missing_eq_flatMap hany, missing_eq_flatMap ((any_eq_of_mem_iff h _).symm.trans hany)]
    refine List.flatMap_congr fun c _ => ?_
    have hnames := any_eq_of_mem_iff h (names (ty.ref c))
    cases hnamed : xs.any (names (ty.ref c)) with
    | false =>
      rw [missingOf_of_not_named hnamed, missingOf_of_not_named (hnames.symm.trans hnamed)]
    | true =>
      cases hfield : sig.fieldType? c with
      | none =>
        rw [missingOf_of_named_closed hnamed hfield,
          missingOf_of_named_closed (hnames.symm.trans hnamed) hfield]
      | some fieldTy =>
        rw [missingOf_of_named hnamed hfield, missingOf_of_named (hnames.symm.trans hnamed) hfield,
          ih c hnamed fieldTy (mem_argsUnder_congr h (ty.ref c))]

/-- **Usefulness depends on the set of earlier shapes.** -/
theorem useful_congr (h : ∀ s, s ∈ xs ↔ s ∈ ys) (s : Shape) :
    useful sig ty xs s = useful sig ty ys s := by
  induction s generalizing ty xs ys with
  | any => simp only [useful, exhaustive, any_eq_of_mem_iff h, missing_congr h]
  | bare c => simp only [useful, any_eq_of_mem_iff h]
  | wrap c arg ih =>
    -- the arguments under a head are the same ones again
    have hbelow : ∀ fieldTy, useful sig fieldTy (argsUnder c xs) arg =
        useful sig fieldTy (argsUnder c ys) arg :=
      fun fieldTy => ih (mem_argsUnder_congr h c)
    simp only [useful, any_eq_of_mem_iff h, hbelow]

/-- **Coverage depends on the set of shapes.** Two lists of shapes with the same elements, in
whatever order and however often each of them occurs, leave out the same cases of a type in the same
order, and every shape is useful behind both of them or behind neither. -/
theorem coverage_eq_of_same_shapes (sig : Signature) (ty : TypeDef) {xs ys : List Shape}
    (h : ∀ s, s ∈ xs ↔ s ∈ ys) :
    missing sig ty xs = missing sig ty ys ∧
      exhaustive sig ty xs = exhaustive sig ty ys ∧
        ∀ s, useful sig ty xs s = useful sig ty ys s := by
  refine ⟨missing_congr h, ?_, useful_congr h⟩
  unfold exhaustive
  rw [missing_congr h]

/-- Shapes over the constructors of the grove, among them a node without its forest, a leaf over a
forest and a forest. None of these fits the type of trees. -/
def straggling : List Shape :=
  [wrap ⟨"Tree", "Node"⟩ (wrap ⟨"Forest", "Grown"⟩ any), bare ⟨"Tree", "Node"⟩,
    wrap ⟨"Tree", "Leaf"⟩ (bare ⟨"Forest", "Bare"⟩), bare ⟨"Forest", "Bare"⟩]

/-- The straggling shapes leave out the bare ground below a node and all grafts. Repeated and in
another order they still do, and the shape of bare ground below a node is useful behind both. -/
theorem straggling_rearranged :
    missing grove.signature tree straggling =
        [wrap ⟨"Tree", "Node"⟩ (bare ⟨"Forest", "Bare"⟩), wrap ⟨"Tree", "Graft"⟩ any] ∧
      missing grove.signature tree (straggling.reverse ++ straggling) =
        missing grove.signature tree straggling ∧
      useful grove.signature tree (straggling.reverse ++ straggling)
        (wrap ⟨"Tree", "Node"⟩ (bare ⟨"Forest", "Bare"⟩)) = true := by
  have hsame : ∀ s, s ∈ straggling.reverse ++ straggling ↔ s ∈ straggling := by
    intro s
    rw [List.mem_append, List.mem_reverse, or_self]
  obtain ⟨hmissing, -, huseful⟩ := coverage_eq_of_same_shapes grove.signature tree hsame
  refine ⟨by decide +kernel, hmissing, ?_⟩
  rw [huseful]
  decide +kernel

end MatchCheck.Shape
