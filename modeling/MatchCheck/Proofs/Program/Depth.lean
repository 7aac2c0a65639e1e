import MatchCheck.Proofs.Coverage.Missing
import MatchCheck.Proofs.Program.Reader
import MatchCheck.Proofs.Value.Resolution

/-!
# How deep patterns nest

No pattern of a program nests more than `maxNesting` argument lists, whatever else may be wrong with
the text (`Source.depth_pattern_le`), and resolution goes down no further than the pattern does
(`Signature.depth_le_of_resolve`).

What shapes leave out can go one level further than the shapes themselves, and no more
(`Shape.depth_le_of_mem_missing`). The further level is that of a constructor that heads none of the
shapes which reach its place: it is missing as a whole, and written with an argument list for its
field.
-/

namespace MatchCheck

mutual

/-- The number of argument lists that a pattern nests. -/
def Pattern.depth : Pattern → Nat
  | .wildcard _ => 0
  | .ctor _ _ args => Pattern.depthOver args

/-- The number of argument lists that a constructor over these arguments nests. -/
def Pattern.depthOver : List Pattern → Nat
  | [] => 0
  | p :: ps => max (p.depth + 1) (Pattern.depthOver ps)

end

/-- A constructor nests one list more than its arguments, at most. -/
theorem Pattern.depthOver_le_succ {ps : List Pattern} {n : Nat} (h : ∀ p ∈ ps, p.depth ≤ n) :
    Pattern.depthOver ps ≤ n + 1 := by
  induction ps with
  | nil => exact Nat.zero_le _
  | cons p ps ih =>
    obtain ⟨hp, hps⟩ := List.forall_mem_cons.mp h
    exact Nat.max_le.mpr ⟨Nat.succ_le_succ hp, ih hps⟩

/-! ### Reading -/

namespace Reader

variable {T : Token → Prop} {stop : Token}

/-- A pattern is the underscore, or a constructor over what is read inside its parentheses. -/
theorem gives_patternWith {inner : Span → Reader (List Pattern)} {P : List Pattern → Prop}
    (hnil : P []) (h : ∀ s, Gives T P (inner s)) :
    Gives T (fun p => ∀ s i args, p = .ctor s i args → P args) (patternWith stop inner) := by
  refine (Gives.trivial _).bind fun t _ => ?_
  split
  · exact Gives.skip (.pure nofun)
  · refine (Gives.trivial _).bind fun name _ => ?_
    -- without parentheses there are no arguments
    have hargs : Gives T (fun x => P x.1) (arguments stop name inner) := by
      refine (Gives.trivial _).bind fun opening _ => ?_
      split
      · exact Gives.skip ((h _).bind fun _ hargs => (Gives.trivial _).bind fun _ _ => .pure hargs)
      · exact .pure hnil
    refine hargs.bind fun x hx => .pure fun s i args hp => ?_
    cases hp
    exact hx

/-- **The reader of patterns keeps to its limit.** -/
theorem gives_pattern (n : Nat) : Gives T (fun p => p.depth ≤ n) (pattern stop n) := by
  have hdepth : ∀ {n : Nat} {p : Pattern},
      (∀ s i args, p = .ctor s i args → Pattern.depthOver args ≤ n) → p.depth ≤ n := by
    intro n p hp
    cases p with
    | wildcard s => exact Nat.zero_le n
    | ctor s i args => exact hp s i args rfl
  -- on the number of levels that are left: the arguments are read with one less
  induction n with
  | zero =>
    intro ts hts p hp
    exact hdepth (gives_patternWith (Nat.le_refl 0) (fun _ => .fail _) ts hts p hp)
  | succ n ih =>
    have hinner : ∀ s : Span, Gives T (fun args => Pattern.depthOver args ≤ n + 1)
        (argumentList stop (pattern stop n)) :=
      fun _ ts hts args hargs => Pattern.depthOver_le_succ (gives_argumentList ih ts hts args hargs)
    intro ts hts p hp
    exact hdepth (gives_patternWith (Nat.zero_le _) hinner ts hts p hp)

/-- The patterns of a match keep to the limit. -/
theorem gives_matchExpr (keyword : Span) :
    Gives T (fun m => ∀ a ∈ m.arms, a.pattern.depth ≤ maxNesting) (matchExpr stop keyword) := by
  have harm : Gives T (fun a => a.pattern.depth ≤ maxNesting) (arm stop) :=
    (gives_pattern _).bind fun _ hp => (Gives.trivial _).bind fun _ _ =>
      (Gives.trivial _).bind fun _ _ => .pure hp
  -- the comma behind an arm changes nothing
  have hround : Gives T (fun o => ∀ a ∈ o, a.pattern.depth ≤ maxNesting) (armRound stop) := by
    refine (Gives.trivial _).bind fun t _ => ?_
    split
    · exact .none
    · refine harm.bind fun a ha => Gives.next stop _ fun b => ?_
      split
      · exact Gives.skip (.some ha)
      · exact .some ha
  refine (Gives.trivial _).bind fun _ _ => (Gives.trivial _).bind fun _ _ => ?_
  exact (Gives.many hround).bind fun _ harms => (Gives.trivial _).bind fun _ _ => .pure harms

end Reader

/-- **No pattern of a source nests too deep.** -/
theorem Source.depth_pattern_le {source : Source} {m : MatchExpr} {a : Arm}
    (hm : m ∈ source.program.1.matchExprs) (ha : a ∈ m.arms) : a.pattern.depth ≤ maxNesting :=
  Program.forall_matchExprs (T := fun _ => True) Reader.gives_matchExpr (fun _ _ => trivial) m hm
    a ha

/-! ### Resolving -/

namespace Signature

variable {sig : Signature} {ty : TypeDef} {p : Pattern} {s : Shape}

/-- A shape nests no deeper than the pattern that it was resolved from. -/
theorem depth_le_of_hasShape (h : p.HasShape sig ty s) : s.depth ≤ p.depth := by
  -- level by level. The argument of a foreign constructor is not looked at, which only makes the
  -- shape shallower
  induction h with
  | wildcard => exact Nat.zero_le _
  | bare _ _ => exact Nat.zero_le _
  | wrap _ _ _ ih => exact Nat.le_trans (Nat.succ_le_succ ih) (Nat.le_max_left _ _)
  | foreign _ _ _ => exact Nat.le_trans (Nat.succ_le_succ (Nat.zero_le _)) (Nat.le_max_left _ _)

theorem depth_le_of_resolve (h : sig.resolve ty p = .ok s) : s.depth ≤ p.depth :=
  depth_le_of_hasShape (hasShape_of_resolve h)

end Signature

/-! ### Missing cases -/

namespace Shape

variable {sig : Signature} {ty : TypeDef} {shapes : List Shape}

/-- A constructor that is missing as a whole is written with one list, at most. -/
theorem depth_whole_le (ty : TypeDef) (c : CtorDef) : (whole ty c).depth ≤ 1 := by
  unfold whole
  split
  · exact Nat.le_refl 1
  · exact Nat.zero_le 1

/-- **Missing cases go one level further than the shapes, at most.** -/
theorem depth_le_of_mem_missing {w : Shape} {n : Nat} (hsig : sig.Distinct) (hty : ty ∈ sig.types)
    (hfits : ∀ s ∈ shapes, s.Fits sig ty) (hdepth : ∀ s ∈ shapes, s.depth ≤ n)
    (hw : w ∈ missing sig ty shapes) : w.depth ≤ n + 1 := by
  -- one level at a time, on both the shapes and what they leave out
  induction ty, shapes using missing.induct generalizing w n with
  | case1 ty shapes hany =>
    rw [missing_of_any hany] at hw
    exact absurd hw List.not_mem_nil
  | case2 ty shapes hany ih =>
    obtain ⟨c, hc, hw⟩ := exists_ctor_of_mem_missing hw
    rcases mem_missingOf_cases hw with ⟨-, rfl⟩ | ⟨hnamed, fieldTy, hfield, w', hw', rfl⟩
    · exact Nat.le_trans (depth_whole_le ty c) (Nat.succ_le_succ (Nat.zero_le n))
    · -- a shape that is headed by the constructor has an argument, so `n` is not zero
      obtain ⟨s, hs, hnames⟩ := List.any_eq_true.mp hnamed
      obtain ⟨arg, -, rfl⟩ := (hfits s hs).exists_arg_of_names hsig hty hc hnames hfield
      have hpos : arg.depth + 1 ≤ n := hdepth _ hs
      obtain ⟨k, rfl⟩ : ∃ k, n = k + 1 := ⟨n - 1, by omega⟩
      have hargs : ∀ a ∈ argsUnder (ty.ref c) shapes, a.depth ≤ k := fun a ha =>
        Nat.le_of_succ_le_succ (hdepth _ (mem_argsUnder_iff.mp ha))
      exact Nat.succ_le_succ (ih c hnamed fieldTy (Signature.mem_types_of_fieldType? hfield)
        (fits_of_mem_argsUnder hfits hsig hty hc hfield) hargs hw')

end Shape

end MatchCheck
