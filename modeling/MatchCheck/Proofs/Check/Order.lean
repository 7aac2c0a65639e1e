import MatchCheck.Proofs.Diagnostic.Sorted
import MatchCheck.Proofs.Program.Extent

/-!
# Where a match is found wrong

A misfit is reported at a name or at a piece inside the expression or the pattern that does not fit
(`Signature.forall_span_resolve`, `Signature.forall_span_argumentError?`). The matched expression
stands in front of the arms, and these stand one behind the other, each with one error at most. So
the errors of a match come in the order of their places as they are found, and no two of them begin
at one offset (`MatchExpr.ascending_errors`).
-/

namespace MatchCheck

variable {source : Source} {G : Span → Prop}

/-! ### Places of misfits -/

namespace Signature

variable {sig : Signature}

theorem span_misplaced {expected : TypeDef} {name : Ident} {unknown : MatchError}
    (h : unknown.diagnostic.span = name.span) :
    (sig.misplaced expected name unknown).diagnostic.span = name.span := by
  unfold misplaced
  split
  · rfl
  · exact h

/-- Arguments that are neither left out for want of a field nor a single one for it are not as many
as the constructor takes. -/
theorem arity_ne_length {α : Type} {c : CtorDef} {args : List α}
    (hbare : c.field = none → args = [] → False)
    (hwrap : ∀ field arg, c.field = some field → args = [arg] → False) : c.arity ≠ args.length := by
  intro harity
  -- arity is zero or one
  cases hfield : c.field with
  | none =>
    rw [CtorDef.arity, hfield] at harity
    exact hbare hfield (List.length_eq_zero_iff.mp harity.symm)
  | some field =>
    rw [CtorDef.arity, hfield] at harity
    obtain ⟨arg, harg⟩ := List.length_eq_one_iff.mp harity.symm
    exact hwrap field arg hfield harg

/-- One level of resolution: a pattern that does not resolve names no constructor of the type, or
has another number of arguments than the constructor takes, or its only argument does not resolve
against the type of the field. -/
theorem resolve_ctor_eq_error {ty : TypeDef} {span : Span} {name : Ident} {args : List Pattern}
    {e : MatchError} (h : sig.resolve ty (.ctor span name args) = .error e) :
    (ty.ctor? name.name = none ∧ e = sig.misplaced ty name (.unknownCtor name ty)) ∨
      ∃ c, ty.ctor? name.name = some c ∧
        ((c.arity ≠ args.length ∧ e = .argumentCount c span args.length) ∨
          ∃ fieldTy arg, sig.fieldType? c = some fieldTy ∧ args = [arg] ∧
            sig.resolve fieldTy arg = .error e) := by
  rw [resolve] at h
  split at h
  · next hnone => exact .inl ⟨hnone, (Except.error.inj h).symm⟩
  · next c hc =>
    refine .inr ⟨c, hc, ?_⟩
    split at h
    · cases h
    · next field arg hfield =>
      split at h
      · next fieldTy htype =>
        refine .inr ⟨fieldTy, arg, (fieldType?_of_field hfield).trans htype, rfl, ?_⟩
        cases harg : sig.resolve fieldTy arg with
        | ok s => rw [harg] at h; cases h
        | error e' => rw [harg] at h; exact h
      · cases h
    · next hbare hwrap =>
      -- as many arguments as the constructor takes would have been let through
      exact .inl ⟨arity_ne_length hbare hwrap, (Except.error.inj h).symm⟩

/-- A pattern that does not fit is reported at a span of its own. -/
theorem forall_span_resolve {ty : TypeDef} {p : Pattern} (hp : p.layout.All G) {e : MatchError}
    (h : sig.resolve ty p = .error e) : G e.diagnostic.span := by
  cases p with
  | wildcard span => simp [resolve] at h
  | ctor span name args =>
    have hspan := hp.span
    cases hp with
    | piece _ hparts =>
      obtain ⟨-, rfl⟩ | ⟨c, -, ⟨-, rfl⟩ | ⟨fieldTy, arg, -, rfl, harg⟩⟩ := resolve_ctor_eq_error h
      · rw [span_misplaced rfl]
        exact (hparts (.name name) (List.mem_cons_self ..)).span
      · exact hspan
      · -- the error comes from below
        exact forall_span_resolve
          (hparts arg.layout (List.mem_cons_of_mem _ (List.mem_cons_self ..))) harg
termination_by p

/-- An argument that does not fit is reported at a span of the expression. -/
theorem forall_span_argumentError? {c : CtorDef} {expr : Expr} (hexpr : expr.layout.All G)
    {e : MatchError} (h : sig.argumentError? c expr = some e) : G e.diagnostic.span := by
  -- along the chain of arguments
  fun_induction sig.argumentError? c expr with
  | case1 => cases h
  | case2 c span name field arg hfield fieldTy htype d hctor ih =>
    cases hexpr with
    | piece _ hparts =>
      exact ih (hparts arg.layout (List.mem_cons_of_mem _ (List.mem_cons_self ..))) h
  | case3 c span name field arg hfield fieldTy htype hctor =>
    -- the argument is blamed at its name
    obtain rfl := Option.some.inj h
    cases hexpr with
    | piece _ hparts =>
      have harg := hparts arg.layout (List.mem_cons_of_mem _ (List.mem_cons_self ..))
      rw [span_misplaced rfl]
      obtain ⟨_, argName, _⟩ := arg
      cases harg with
      | piece _ hparts => exact (hparts (.name argName) (List.mem_cons_self ..)).span
  | case4 => cases h
  | case5 c span name args hnone hsome =>
    obtain rfl := Option.some.inj h
    exact hexpr.span

/-- The rows of a match are its arms whose patterns resolve. -/
theorem mem_resolvedArms_iff {ty : TypeDef} {arms : List Arm} {arm : Arm} {s : Shape} :
    (arm, s) ∈ sig.resolvedArms ty arms ↔ arm ∈ arms ∧ sig.resolve ty arm.pattern = .ok s := by
  simp only [resolvedArms, List.mem_filterMap]
  constructor
  · rintro ⟨a, ha, hs⟩
    -- only a pattern that resolves leaves a row
    cases hr : sig.resolve ty a.pattern with
    | error e => simp [hr, Except.toOption] at hs
    | ok t =>
      simp only [hr, Except.toOption, Option.map_some, Option.some.injEq, Prod.mk.injEq] at hs
      obtain ⟨rfl, rfl⟩ := hs
      exact ⟨ha, hr⟩
  · rintro ⟨ha, hr⟩
    exact ⟨arm, ha, by simp [hr, Except.toOption]⟩

theorem armError_eq_some_iff {r : Except MatchError Shape} {e : MatchError} :
    (match r with | .ok _ => none | .error e => some e) = some e ↔ r = .error e := by
  cases r <;> simp

theorem mem_armErrors_iff {ty : TypeDef} {arms : List Arm} {e : MatchError} :
    e ∈ sig.armErrors ty arms ↔ ∃ arm ∈ arms, sig.resolve ty arm.pattern = .error e := by
  rw [armErrors, List.mem_filterMap]
  exact exists_congr fun arm => and_congr_right fun _ => armError_eq_some_iff

/-- Errors of arms are related if those of an earlier and a later arm are. -/
theorem pairwise_armErrors {R : MatchError → MatchError → Prop} {ty : TypeDef} {arms : List Arm}
    (h : arms.Pairwise fun a b => ∀ e f, sig.resolve ty a.pattern = .error e →
      sig.resolve ty b.pattern = .error f → R e f) : (sig.armErrors ty arms).Pairwise R := by
  refine List.pairwise_filterMap.mpr (h.imp fun hab e he f hf => ?_)
  exact hab e f (armError_eq_some_iff.mp he) (armError_eq_some_iff.mp hf)

/-- A matched expression without a type is reported at its head. -/
theorem span_scrutinee {expr : Expr} {e : MatchError} (h : sig.scrutinee expr = .error e) :
    e.diagnostic.span = expr.name.span := by
  unfold scrutinee at h
  split at h
  · obtain rfl := Except.error.inj h
    rfl
  · cases h
  · obtain rfl := Except.error.inj h
    rfl

end Signature

/-! ### The errors of a match -/

theorem Pattern.span_layout (p : Pattern) : p.layout.span = p.span := by
  cases p <;> rfl

theorem Expr.span_layout (e : Expr) : e.layout.span = e.span := by
  cases e
  rfl

/-- If all spans of an arm are of one kind, then so are those of its pattern. -/
theorem Arm.all_pattern {arm : Arm} (h : arm.layout.All G) : arm.pattern.layout.All G := by
  cases h with
  | piece _ hparts => exact hparts _ (List.mem_cons_self ..)

theorem Expr.all_name {expr : Expr} (h : expr.layout.All G) : G expr.name.span := by
  cases expr with
  | apply span name args =>
    cases h with
    | piece _ hparts => exact (hparts (.name name) (List.mem_cons_self ..)).span

namespace MatchExpr

variable {sig : Signature} {m : MatchExpr}

/-- If all spans of a match are of one kind, then so are those of the expression and the arms. -/
theorem all_parts (h : m.layout.All G) :
    m.scrutinee.layout.All G ∧ ∀ arm ∈ m.arms, arm.layout.All G := by
  cases h with
  | piece _ hparts =>
    obtain ⟨hscrutinee, hparts⟩ := List.forall_mem_cons.mp (List.forall_mem_cons.mp hparts).2
    exact ⟨hscrutinee, List.forall_mem_map.mp (List.forall_mem_append.mp hparts).1⟩

/-- The errors of a match are at spans of its own. -/
theorem forall_span_errors (h : m.layout.All G) :
    ∀ e ∈ (sig.resolveMatch m).2, G e.diagnostic.span := by
  obtain ⟨hscrutinee, harms⟩ := all_parts h
  intro e he
  unfold Signature.resolveMatch at he
  split at he
  · next herror =>
    -- without a type the expression is blamed, and the arms are not looked at
    obtain rfl := List.mem_singleton.mp he
    rw [Signature.span_scrutinee herror]
    exact Expr.all_name hscrutinee
  · rcases List.mem_append.mp he with he | he
    · exact Signature.forall_span_argumentError? hscrutinee (Option.mem_toList.mp he)
    · obtain ⟨arm, harm, he⟩ := Signature.mem_armErrors_iff.mp he
      exact Signature.forall_span_resolve (Arm.all_pattern (harms arm harm)) he

/-- In a sound match the arms stand behind the matched expression and one behind the other, and all
spans of a pattern lie inside its arm. -/
theorem ordered_parts (h : m.layout.Sound source) :
    (∀ arm ∈ m.arms, m.scrutinee.layout.span.Before arm.span) ∧
      m.arms.Pairwise (fun a b => a.span.Before b.span) ∧
        m.scrutinee.layout.All m.scrutinee.layout.span.Contains ∧
          ∀ arm ∈ m.arms, arm.pattern.layout.All arm.span.Contains := by
  cases h with
  | piece _ _ ordered sound =>
    -- the keyword stands in front, then the expression, then the arms
    obtain ⟨hbehind, ordered⟩ := List.pairwise_cons.mp (List.pairwise_cons.mp ordered).2
    obtain ⟨hscrutinee, sound⟩ := List.forall_mem_cons.mp (List.forall_mem_cons.mp sound).2
    have harms : ∀ arm ∈ m.arms, arm.layout ∈ m.arms.map Arm.layout ++ [.piece m.closeSpan []] :=
      fun arm harm => List.mem_append_left _ (List.mem_map_of_mem harm)
    have hordered : m.arms.Pairwise fun a b => a.span.Before b.span :=
      List.Pairwise.of_map Arm.layout (fun _ _ => id) (List.pairwise_append.mp ordered).1
    exact ⟨fun arm harm => hbehind _ (harms arm harm), hordered, hscrutinee.all_inside,
      fun arm harm => Arm.all_pattern (sound _ (harms arm harm)).all_inside⟩

/-- All spans of the matched expression lie inside it, and those of each pattern inside the pattern.
-/
theorem inside_parts (h : m.layout.Sound source) :
    m.scrutinee.layout.All m.scrutinee.span.Contains ∧
      ∀ arm ∈ m.arms, arm.pattern.layout.All arm.pattern.span.Contains := by
  cases h with
  | piece _ _ _ sound =>
    obtain ⟨hscrutinee, sound⟩ := List.forall_mem_cons.mp (List.forall_mem_cons.mp sound).2
    -- each part of a sound layout is sound, so that its own spans lie inside it
    refine ⟨?_, fun arm harm => ?_⟩
    · rw [← Expr.span_layout]
      exact hscrutinee.all_inside
    · cases sound _ (List.mem_append_left _ (List.mem_map_of_mem harm)) with
      | piece _ _ _ sound =>
        rw [← Pattern.span_layout]
        exact (sound _ (List.mem_cons_self ..)).all_inside

/-- The errors of a sound match stand one behind the other. -/
theorem ordered_errors (h : m.layout.Sound source) :
    (sig.resolveMatch m).2.Pairwise fun e f => e.diagnostic.span.Before f.diagnostic.span := by
  obtain ⟨hbehind, harms, hscrutinee, hinside⟩ := ordered_parts h
  unfold Signature.resolveMatch
  split
  · exact List.pairwise_singleton _ _
  · next ty c _ =>
    -- one error at most in the expression, then those of the arms
    refine List.pairwise_append.mpr ⟨?_, ?_, ?_⟩
    · cases sig.argumentError? c m.scrutinee
      · exact List.Pairwise.nil
      · exact List.pairwise_singleton _ _
    · refine Signature.pairwise_armErrors (harms.imp_of_mem fun {a b} ha hb hab e f he hf => ?_)
      exact hab.inside (Signature.forall_span_resolve (hinside a ha) he)
        (Signature.forall_span_resolve (hinside b hb) hf)
    · -- an error of the expression stands in front of all errors of arms
      intro e he f hf
      obtain ⟨arm, harm, hf⟩ := Signature.mem_armErrors_iff.mp hf
      refine (hbehind arm harm).inside ?_ (Signature.forall_span_resolve (hinside arm harm) hf)
      exact Signature.forall_span_argumentError? hscrutinee (Option.mem_toList.mp he)

/-- **The errors of a match ascend.** Each begins behind all that are found before it. -/
theorem ascending_errors (hsound : m.layout.Sound source) (hproper : m.layout.All Span.Proper) :
    ((sig.resolveMatch m).2.map MatchError.diagnostic).Pairwise Diagnostic.StartsLT := by
  refine List.pairwise_map.mpr ((ordered_errors hsound).imp_of_mem fun he _ hef => ?_)
  exact hef.start_lt (forall_span_errors hproper _ he)

end MatchExpr

/-! ### The matches of a source -/

/-- The matches of a source are sound, and no piece of them is empty. -/
theorem Source.sound_matchExprs (source : Source) :
    ∀ m ∈ source.program.1.matchExprs, m.layout.Sound source ∧ m.layout.All Span.Proper := by
  intro m hm
  obtain ⟨hi, hrow⟩ := source.row_program.1
  have hmem := Program.layout_mem_of_mem_matchExprs hm
  exact ⟨hrow.sound _ hmem, source.all_proper _ hmem⟩

end MatchCheck
