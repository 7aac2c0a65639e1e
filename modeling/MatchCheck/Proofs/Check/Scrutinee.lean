import MatchCheck.Proofs.Check.Typing

/-!
# What a matched expression may mean

A constructor name may be declared in several types. A matched expression means a constructor of its
name, and among these one that takes as many arguments as are written, if there is any such
(`Signature.Means`). The expression has a type exactly if a single constructor can be meant, and the
type is that of this constructor (`Signature.scrutinee_eq_ok_iff`). Otherwise the name is declared
nowhere or several types are to choose from, and this is the only thing that is found in the match
(`Signature.Untyped`).

That a type is listed once in what is found rests on the signature: a name is declared once inside a
type, so that the types of the constructors in question are a part of the list of types
(`Signature.map_fst_candidates_sublist`).

With a type, the expression is blamed exactly if it is not a value of this type, and then once and
inside itself (`Source.scrutinee_decided`).
-/

namespace MatchCheck

namespace Signature

/-- The constructors that an expression may mean, each with its type: those of its name that take as
many arguments as are written, or all of its name if none of them does. -/
structure Means (sig : Signature) (e : Expr) (ty : TypeDef) (c : CtorDef) : Prop where
  type_mem : ty ∈ sig.types
  ctor_mem : c ∈ ty.ctors
  name_eq : c.name = e.name.name
  arity_eq : c.arity = e.args.length ∨
    ∀ t ∈ sig.types, ∀ d ∈ t.ctors, d.name = e.name.name → d.arity ≠ e.args.length

/-- What is found in a match whose expression has no type. -/
inductive Untyped (sig : Signature) (e : Expr) (d : Diagnostic) : Prop
  /-- The name is declared nowhere. -/
  | unknown (hnone : ∀ ty ∈ sig.types, ∀ c ∈ ty.ctors, c.name ≠ e.name.name)
      (hcode : d.code = "E1002")
  /-- Several types have a constructor that may be meant. Each of them is listed, once. -/
  | ambiguous (owners : List TypeDef) (hseveral : 1 < owners.length)
      (howners : ∀ ty, ty ∈ owners ↔ ∃ c, sig.Means e ty c) (hnames : (owners.map (·.name)).Nodup)
      (hcode : d.code = "E1017")
      (hmessage : d.message = "Ambiguous constructor " ++ MatchError.quote e.name.name ++
        ": declared in " ++ " and ".intercalate (owners.map fun ty => MatchError.quote ty.name))

variable {sig : Signature} {ty : TypeDef} {c : CtorDef} {e : Expr}

/-! ### Candidates -/

theorem mem_candidates_iff : (ty, c) ∈ sig.candidates e ↔ sig.Means e ty c := by
  simp only [candidates]
  split
  · next hempty =>
    -- no constructor of the name takes as many arguments
    rw [List.isEmpty_iff, List.filter_eq_nil_iff] at hempty
    have harity : ∀ t ∈ sig.types, ∀ d ∈ t.ctors, d.name = e.name.name →
        d.arity ≠ e.args.length := by
      intro t ht d hd hname
      simpa using hempty (t, d) (mem_ctorsNamed_iff.mpr ⟨ht, hd, hname⟩)
    rw [mem_ctorsNamed_iff]
    refine ⟨?_, fun h => ⟨h.type_mem, h.ctor_mem, h.name_eq⟩⟩
    rintro ⟨hty, hc, hname⟩
    exact ⟨hty, hc, hname, .inr harity⟩
  · next hfitting =>
    rw [List.mem_filter, mem_ctorsNamed_iff, decide_eq_true_iff]
    constructor
    · rintro ⟨⟨hty, hc, hname⟩, harity⟩
      exact ⟨hty, hc, hname, .inl harity⟩
    · intro h
      refine ⟨⟨h.type_mem, h.ctor_mem, h.name_eq⟩, h.arity_eq.resolve_right fun hnone => ?_⟩
      refine hfitting (List.isEmpty_iff.mpr (List.filter_eq_nil_iff.mpr ?_))
      rintro ⟨t, d⟩ hmem
      obtain ⟨ht, hd, hname⟩ := mem_ctorsNamed_iff.mp hmem
      simpa using hnone t ht d hd hname

theorem candidates_eq_nil_iff : sig.candidates e = [] ↔ sig.ctorsNamed e.name.name = [] := by
  simp only [candidates]
  split
  · exact Iff.rfl
  · next hfitting =>
    refine ⟨fun hnil => absurd (List.isEmpty_iff.mpr hnil) hfitting, fun hnil => ?_⟩
    rw [hnil]
    rfl

/-- A type has one constructor of a name at most. -/
theorem map_fst_named_sublist (name : String) (h : (ty.ctors.map (·.name)).Nodup) :
    (((ty.ctors.filter (·.name = name)).map (ty, ·)).map (·.1)).Sublist [ty] := by
  have hnodup : ((ty.ctors.filter (·.name = name)).map (·.name)).Nodup :=
    h.sublist (List.filter_sublist.map _)
  have hname : ∀ c ∈ ty.ctors.filter (·.name = name), c.name = name := by
    intro c hc
    simpa using (List.mem_filter.mp hc).2
  generalize ty.ctors.filter (·.name = name) = named at hnodup hname
  match named with
  | [] => exact List.nil_sublist _
  | [c] => exact List.Sublist.refl _
  | c :: d :: rest =>
    -- two of them would have different names
    have hc : c.name = name := hname c List.mem_cons_self
    have hd : d.name = name := hname d (List.mem_cons_of_mem _ List.mem_cons_self)
    rw [List.map_cons, List.map_cons, hc, hd, List.nodup_cons] at hnodup
    exact absurd List.mem_cons_self hnodup.1

theorem map_fst_ctorsNamed_sublist (name : String) {types : List TypeDef}
    (h : ∀ t ∈ types, (t.ctors.map (·.name)).Nodup) :
    ((ctorsNamed ⟨types⟩ name).map (·.1)).Sublist types := by
  induction types with
  | nil => exact List.Sublist.refl _
  | cons t types ih =>
    obtain ⟨ht, htypes⟩ := List.forall_mem_cons.mp h
    rw [ctorsNamed, List.flatMap_cons, List.map_append]
    exact (map_fst_named_sublist name ht).append (ih htypes)

theorem candidates_sublist : (sig.candidates e).Sublist (sig.ctorsNamed e.name.name) := by
  simp only [candidates]
  split
  · exact List.Sublist.refl _
  · exact List.filter_sublist

/-- **Candidates are of different types.** -/
theorem map_fst_candidates_sublist (hsig : sig.Distinct) :
    ((sig.candidates e).map (·.1)).Sublist sig.types :=
  (candidates_sublist.map _).trans (map_fst_ctorsNamed_sublist e.name.name hsig.ctors)

theorem nodup_candidates (hsig : sig.Distinct) : (sig.candidates e).Nodup :=
  ((hsig.types.of_map _).sublist (map_fst_candidates_sublist hsig)).of_map _

/-! ### The type of an expression -/

/-- **An expression has the type of the only constructor that it may mean.** -/
theorem scrutinee_eq_ok_iff (hsig : sig.Distinct) :
    sig.scrutinee e = .ok (ty, c) ↔
      sig.Means e ty c ∧ ∀ t d, sig.Means e t d → t = ty ∧ d = c := by
  simp only [← mem_candidates_iff]
  refine ⟨fun h => ?_, fun ⟨hmem, honly⟩ => ?_⟩
  · rw [candidates_of_scrutinee h]
    refine ⟨List.mem_singleton_self _, fun t d hmem => ?_⟩
    exact Prod.mk.inj (List.mem_singleton.mp hmem)
  · -- without repetitions, a list of equal candidates has one element
    have hperm : (sig.candidates e).Perm [(ty, c)] := by
      rw [List.perm_ext_iff_of_nodup (nodup_candidates hsig) (List.nodup_singleton _)]
      rintro ⟨t, d⟩
      rw [List.mem_singleton]
      refine ⟨fun hfound => ?_, fun heq => heq ▸ hmem⟩
      obtain ⟨rfl, rfl⟩ := honly t d hfound
      rfl
    rw [scrutinee, List.perm_singleton.mp hperm]

/-- **An expression without a type names no constructor or those of several types.** -/
theorem untyped_of_scrutinee (hsig : sig.Distinct) {err : MatchError}
    (h : sig.scrutinee e = .error err) : sig.Untyped e err.diagnostic := by
  unfold scrutinee at h
  split at h
  · next hnil =>
    obtain rfl := Except.error.inj h
    exact .unknown (ctorsNamed_eq_nil_iff.mp (candidates_eq_nil_iff.mp hnil)) rfl
  · cases h
  · next hnil hsingle =>
    obtain rfl := Except.error.inj h
    -- one candidate would decide the type, so there are at least two, and they differ
    have hsublist := map_fst_candidates_sublist hsig (e := e)
    refine .ambiguous ((sig.candidates e).map (·.1)) ?_ (fun ty => ?_)
      (hsig.types.sublist (hsublist.map _)) rfl ?_
    · rw [List.length_map]
      match hcandidates : sig.candidates e with
      | [] => exact absurd hcandidates hnil
      | [found] => exact absurd hcandidates (hsingle found)
      | _ :: _ :: rest => exact Nat.succ_lt_succ (Nat.succ_pos rest.length)
    · rw [List.mem_map]
      refine ⟨?_, fun ⟨c, hmeans⟩ => ⟨(ty, c), mem_candidates_iff.mpr hmeans, rfl⟩⟩
      rintro ⟨⟨t, c⟩, hmem, rfl⟩
      exact ⟨c, mem_candidates_iff.mp hmem⟩
    · rw [List.map_map]
      rfl

/-! ### The expression of a match -/

variable {m : MatchExpr}

/-- What is decided about the expression of a match. -/
structure DecidesScrutinee (sig : Signature) (m : MatchExpr) : Prop where
  /-- The match is left alone unless its expression may mean exactly one constructor. -/
  none_iff : (sig.resolveMatch m).1 = none ↔
    ¬ ∃! found : TypeDef × CtorDef, sig.Means m.scrutinee found.1 found.2
  /-- A match that is left alone has one finding, inside its expression, which says why there is no
  type. -/
  untyped : (sig.resolveMatch m).1 = none →
    ∃ d, (sig.resolveMatch m).2.map MatchError.diagnostic = [d] ∧
      m.scrutinee.span.Contains d.span ∧ sig.Untyped m.scrutinee d
  /-- Any other match has the type of the constructor that is meant. In front of what is found in
  its arms stands nothing if the expression is a value of the type, and one finding inside the
  expression if it is not. -/
  typed : ∀ r, (sig.resolveMatch m).1 = some r → (∃ c, sig.Means m.scrutinee r.type c) ∧
    ∃ inScrutinee inArms : List Diagnostic,
      (sig.resolveMatch m).2.map MatchError.diagnostic = inScrutinee ++ inArms ∧
        (∀ d ∈ inArms, ∃ arm ∈ m.arms, arm.pattern.span.Contains d.span) ∧
        (m.scrutinee.HasType sig r.type → inScrutinee = []) ∧
        (¬ m.scrutinee.HasType sig r.type → ∃ d, inScrutinee = [d] ∧
          d.code ∈ ["E1001", "E1002", "E1007"] ∧ m.scrutinee.span.Contains d.span)

/-- Of an expression whose head is known, nothing is found if it is a value of the type of the head,
and otherwise one thing. -/
theorem findings_argumentError? (hsig : sig.Distinct) (h : sig.Means e ty c)
    (hinside : e.layout.All e.span.Contains) :
    (e.HasType sig ty →
        (sig.argumentError? c e).toList.map MatchError.diagnostic = []) ∧
      (¬ e.HasType sig ty →
        ∃ d, (sig.argumentError? c e).toList.map MatchError.diagnostic = [d] ∧
          d.code ∈ ["E1001", "E1002", "E1007"] ∧ e.span.Contains d.span) := by
  -- whether the expression has the type is whether there is an error
  rw [← argumentError?_eq_none_iff hsig h.type_mem h.ctor_mem h.name_eq]
  cases herr : sig.argumentError? c e with
  | none => exact ⟨fun _ => rfl, fun hne => absurd rfl hne⟩
  | some err =>
    refine ⟨fun hnone => absurd hnone (Option.some_ne_none err), fun _ => ?_⟩
    refine ⟨err.diagnostic, rfl, ?_, ?_⟩
    · rw [err.code_diagnostic]
      exact List.mem_map_of_mem (f := Code.text) (code_argumentError? herr)
    · exact forall_span_argumentError? hinside herr

/-- **Without a type** the expression is blamed, and the arms are not looked at. -/
theorem decidesScrutinee_of_error (hsig : sig.Distinct)
    (hscrutinee : m.scrutinee.layout.All m.scrutinee.span.Contains) {err : MatchError}
    (hfound : sig.scrutinee m.scrutinee = .error err) : sig.DecidesScrutinee m where
  none_iff := by
    refine iff_of_true (by rw [resolveMatch_of_error hfound]) ?_
    -- a single constructor that can be meant would have given a type
    rintro ⟨⟨ty, c⟩, hmeans, honly⟩
    have hok : sig.scrutinee m.scrutinee = .ok (ty, c) :=
      (scrutinee_eq_ok_iff hsig).mpr ⟨hmeans, fun t d htd => Prod.mk.inj (honly (t, d) htd)⟩
    rw [hfound] at hok
    cases hok
  untyped _ := by
    refine ⟨err.diagnostic, ?_, ?_, untyped_of_scrutinee hsig hfound⟩
    · rw [resolveMatch_of_error hfound]
      rfl
    · rw [span_scrutinee hfound]
      exact Expr.all_name hscrutinee
  typed r hr := by
    rw [resolveMatch_of_error hfound] at hr
    cases hr

/-- **With a type** the expression is checked against it, and so is every arm. -/
theorem decidesScrutinee_of_ok (hsig : sig.Distinct)
    (hscrutinee : m.scrutinee.layout.All m.scrutinee.span.Contains)
    (hpatterns : ∀ arm ∈ m.arms, arm.pattern.layout.All arm.pattern.span.Contains)
    (hfound : sig.scrutinee m.scrutinee = .ok (ty, c)) : sig.DecidesScrutinee m where
  none_iff := by
    obtain ⟨hmeans, honly⟩ := (scrutinee_eq_ok_iff hsig).mp hfound
    -- there is a meaning and only one, so both sides of the equivalence fail
    refine iff_of_false (by rw [resolveMatch_of_ok hfound]; simp)
      (not_not.mpr ⟨(ty, c), hmeans, ?_⟩)
    rintro ⟨t, d⟩ htd
    obtain ⟨rfl, rfl⟩ := honly t d htd
    rfl
  untyped hnone := by
    rw [resolveMatch_of_ok hfound] at hnone
    cases hnone
  typed r hr := by
    obtain ⟨hmeans, -⟩ := (scrutinee_eq_ok_iff hsig).mp hfound
    rw [resolveMatch_of_ok hfound] at hr ⊢
    obtain rfl := Option.some.inj hr
    refine ⟨⟨c, hmeans⟩, _, _, List.map_append, ?_, findings_argumentError? hsig hmeans hscrutinee⟩
    rw [List.forall_mem_map]
    intro err herr
    obtain ⟨arm, harm, herr⟩ := mem_armErrors_iff.mp herr
    exact ⟨arm, harm, forall_span_resolve (hpatterns arm harm) herr⟩

end Signature

/-- **What is decided about the expressions of matches.** In a source, take the constructors that
the expression of a match may mean: those of its name that take as many arguments as are written, or
all of its name if there are none such. The match is resolved exactly if there is one of them, and
then to its type; otherwise there is one finding, about the expression. The expression of a match
that is resolved is found wrong exactly if it is not a value of the type, once and inside itself.
-/
theorem Source.scrutinee_decided (source : Source) {m : MatchExpr}
    (hm : m ∈ source.program.1.matchExprs) : source.program.1.signature.DecidesScrutinee m := by
  obtain ⟨hscrutinee, hpatterns⟩ := MatchExpr.inside_parts (source.sound_matchExprs m hm).1
  have hsig := source.program.1.signature_distinct
  cases hfound : source.program.1.signature.scrutinee m.scrutinee with
  | error err => exact Signature.decidesScrutinee_of_error hsig hscrutinee hfound
  | ok found => exact Signature.decidesScrutinee_of_ok hsig hscrutinee hpatterns hfound

/-- A source with two types that share a constructor name, and with matches of all kinds. -/
def hands : Source :=
  .ofString "hands.pmxc" <|
    "enum Left \x7b Hand, Glove(Left) \x7d enum Right \x7b Hand, Ring(Metal) \x7d\n" ++
    "match Hand \x7b\x7d match Foot \x7b\x7d match Glove(Ring(Gold)) \x7b\x7d\n" ++
    "match Ring(Gold) \x7b\x7d\n"

/-- A hand is left or right, and a foot is nothing. A glove over a ring has the type of gloves but
is no value of it, and a ring of whatever metal is one of its type. -/
theorem hands_decided :
    hands.program.1.matchExprs.map (fun m =>
        ((hands.program.1.signature.resolveMatch m).1.map (·.type.name),
          (hands.program.1.signature.resolveMatch m).2.map (·.diagnostic.code))) =
      [(none, ["E1017"]), (none, ["E1002"]), (some "Left", ["E1001"]), (some "Right", [])] ∧
    ∀ m ∈ hands.program.1.matchExprs, hands.program.1.signature.DecidesScrutinee m :=
  ⟨by decide +kernel, fun _ hm => hands.scrutinee_decided hm⟩

end MatchCheck
