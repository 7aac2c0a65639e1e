import MatchCheck.Proofs.Check.Soundness
import MatchCheck.Proofs.Check.Typing

/-!
# Every arm is accounted for

The arms of a match whose expression has a type are gone through in order, and each of them ends up
in one of two places: among the resolved arms, with the shape of its pattern, or among the errors,
with the one error that is found in its pattern. `Signature.Accounts` follows the two lists along
the arms. Which of the two becomes of an arm is decided by the typing of its pattern, and this is
all there is to say about the resolution of a match (`Source.arms_accounted`).
-/

namespace MatchCheck

/-- What becomes of arms, one by one: they are given with those that are resolved and the findings
about the others. -/
inductive Signature.Accounts (sig : Signature) (ty : TypeDef) :
    List Arm → List (Arm × Shape) → List Diagnostic → Prop
  | nil : Accounts sig ty [] [] []
  /-- The pattern of an arm belongs to the type. The arm is kept with a shape of the type, which is
  the pattern up to what stands in fields of undeclared types, and nothing is found. -/
  | resolved {arm : Arm} {s : Shape} {arms : List Arm} {rows : List (Arm × Shape)}
      {findings : List Diagnostic} (htype : arm.pattern.HasType sig ty) (hfits : s.Fits sig ty)
      (hpattern : s.pattern = (arm.pattern.widened sig ty).move .forget)
      (hrest : Accounts sig ty arms rows findings) :
      Accounts sig ty (arm :: arms) ((arm, s) :: rows) findings
  /-- The pattern of an arm does not belong to the type. The arm is left out, and its outermost
  misfit is found, inside the pattern. -/
  | reported {arm : Arm} {d : Diagnostic} {code : Code} {arms : List Arm}
      {rows : List (Arm × Shape)} {findings : List Diagnostic}
      (htype : ¬ arm.pattern.HasType sig ty) (hmisfit : arm.pattern.MisfitAt sig ty code d.span)
      (hcode : d.code = code.text) (herror : d.severity = .error)
      (hinside : arm.pattern.span.Contains d.span) (hrest : Accounts sig ty arms rows findings) :
      Accounts sig ty (arm :: arms) rows (d :: findings)

namespace Signature

variable {sig : Signature} {ty : TypeDef} {arm : Arm} {arms : List Arm}

/-! ### What an account says -/

section Accounts

variable {rows : List (Arm × Shape)} {findings : List Diagnostic}

/-- Arms that are kept are kept in order. -/
theorem Accounts.sublist (h : sig.Accounts ty arms rows findings) :
    (rows.map (·.1)).Sublist arms := by
  induction h with
  | nil => exact List.Sublist.slnil
  | resolved _ _ _ _ ih => exact ih.cons_cons _
  | reported _ _ _ _ _ _ ih => exact ih.cons _

theorem Accounts.length (h : sig.Accounts ty arms rows findings) :
    rows.length + findings.length = arms.length := by
  induction h with
  | nil => rfl
  | resolved _ _ _ _ ih => rw [List.length_cons, List.length_cons, Nat.add_right_comm, ih]
  | reported _ _ _ _ _ _ ih => rw [List.length_cons, List.length_cons, ← Nat.add_assoc, ih]

/-- All that is found in arms is a name of other types, an argument count or an unknown name. -/
theorem Accounts.code_of_mem (h : sig.Accounts ty arms rows findings) {d : Diagnostic}
    (hd : d ∈ findings) : d.code ∈ ["E1001", "E1007", "E1016"] := by
  induction h with
  | nil => exact absurd hd List.not_mem_nil
  | resolved _ _ _ _ ih => exact ih hd
  | reported _ hmisfit hcode _ _ _ ih =>
    rcases List.mem_cons.mp hd with rfl | hd
    · rw [hcode]
      exact List.mem_map_of_mem (f := Code.text) (code_of_misfitAt hmisfit)
    · exact ih hd

end Accounts

/-! ### The account of a match -/

/-- **Arms are resolved or reported.** -/
theorem accounts_arms (hsig : sig.Distinct) (hty : ty ∈ sig.types)
    (hinside : ∀ arm ∈ arms, arm.pattern.layout.All arm.pattern.span.Contains) :
    sig.Accounts ty arms (sig.resolvedArms ty arms)
      ((sig.armErrors ty arms).map MatchError.diagnostic) := by
  -- an arm makes one of the two lists longer and leaves the other as it is
  induction arms with
  | nil => exact .nil
  | cons arm arms ih =>
    obtain ⟨harm, harms⟩ := List.forall_mem_cons.mp hinside
    cases h : sig.resolve ty arm.pattern with
    | ok s =>
      have hshape := hasShape_of_resolve h
      rw [resolvedArms_cons_of_ok h, armErrors_cons_of_ok h]
      exact .resolved (hasType_of_hasShape hshape) (fits_of_hasShape hshape)
        (pattern_of_hasShape hshape) (ih harms)
    | error e =>
      have hmisfit := misfitAt_of_resolve h
      rw [resolvedArms_cons_of_error h, armErrors_cons_of_error h, List.map_cons]
      exact .reported (not_hasType_of_misfitAt hsig hmisfit hty) hmisfit e.code_diagnostic
        e.severity_diagnostic (forall_span_resolve harm h) (ih harms)

end Signature

/-! ### The arms of a source -/

/-- **Every arm of a match is resolved or reported, as its typing says.** Take a match of a source
whose expression resolves to a type. What is found in the match is what is found in its expression
and then what is found in its arms. Each arm is accounted for once and in order: an arm whose
pattern belongs to the type is kept with a shape, which is its pattern up to what stands in fields
of undeclared types, and nothing is found in it; in any other arm its outermost misfit is found,
inside the pattern, and nothing else. -/
theorem Source.arms_accounted (source : Source) {m : MatchExpr}
    (hm : m ∈ source.program.1.matchExprs) {r : ResolvedMatch}
    (hr : (source.program.1.signature.resolveMatch m).1 = some r) :
    ∃ inScrutinee inArms : List Diagnostic,
      (source.program.1.signature.resolveMatch m).2.map MatchError.diagnostic =
          inScrutinee ++ inArms ∧
        (∀ d ∈ inScrutinee, m.scrutinee.span.Contains d.span) ∧
        source.program.1.signature.Accounts r.type m.arms r.arms inArms ∧
        (∀ d ∈ inArms, d.code ∈ ["E1001", "E1007", "E1016"]) ∧
        (r.arms.map (·.1)).Sublist m.arms ∧ r.arms.length + inArms.length = m.arms.length ∧
        ∀ arm ∈ m.arms, (∃ s, (arm, s) ∈ r.arms) ↔
          arm.pattern.HasType source.program.1.signature r.type := by
  obtain ⟨hscrutinee, hpatterns⟩ := MatchExpr.inside_parts (source.sound_matchExprs m hm).1
  -- from here on only the program matters, and not how it was read
  generalize source.program.1 = p at hm hr
  cases hfound : p.signature.scrutinee m.scrutinee with
  | error e =>
    rw [Signature.resolveMatch_of_error hfound] at hr
    cases hr
  | ok found =>
    obtain ⟨ty, c⟩ := found
    obtain ⟨hty, -, -⟩ := Signature.mem_of_scrutinee hfound
    rw [Signature.resolveMatch_of_ok hfound] at hr ⊢
    obtain rfl := Option.some.inj hr
    have haccounts := Signature.accounts_arms p.signature_distinct hty hpatterns
    refine ⟨_, _, List.map_append, ?_, haccounts, fun d => haccounts.code_of_mem,
      haccounts.sublist, haccounts.length, fun arm harm => ?_⟩
    · rw [List.forall_mem_map]
      intro e he
      exact Signature.forall_span_argumentError? hscrutinee (Option.mem_toList.mp he)
    · -- an arm has a row exactly if its pattern resolves
      rw [Signature.hasType_iff_resolve p.signature_distinct hty]
      exact exists_congr fun s => Signature.mem_resolvedArms_iff.trans (and_iff_right harm)

/-- A source with a match over parcels, some of which have a field of an undeclared type. -/
def parcels : Source :=
  .ofString "parcels.pmxc" <|
    "enum Nat \x7b Zero, Succ(Nat) \x7d\n" ++
    "enum Parcel \x7b Sealed(Letter), Coins(Nat), Lost \x7d\n" ++
    "match Lost \x7b Sealed(Stamped(_)) => \x7b\x7d Coins(Succ(Lost)) => \x7b\x7d\n" ++
    "  Coins => \x7b\x7d Coins(Succ(_)) => \x7b\x7d Found => \x7b\x7d \x7d\n"

/-- Of the five arms two are kept, the first of them without what is said about the letter, and the
other three are reported: a constructor of parcels stands among numbers, an argument is left out,
and a name is unknown. -/
theorem parcels_accounted :
    parcels.program.1.matchExprs.length = 1 ∧
      ∀ m ∈ parcels.program.1.matchExprs, ∃ r,
        (parcels.program.1.signature.resolveMatch m).1 = some r ∧
          r.arms.map (·.2.render) = ["Sealed(_)", "Coins(Succ(_))"] ∧
          ∃ inArms, parcels.program.1.signature.Accounts r.type m.arms r.arms inArms ∧
            inArms.map (·.code) = ["E1001", "E1007", "E1016"] := by
  have heval : parcels.program.1.matchExprs.length = 1 ∧
      ∀ m ∈ parcels.program.1.matchExprs,
        ((parcels.program.1.signature.resolveMatch m).1.map fun r => r.arms.map (·.2.render)) =
            some ["Sealed(_)", "Coins(Succ(_))"] ∧
          m.arms.length = 5 ∧
          ((parcels.program.1.signature.resolveMatch m).2.map MatchError.diagnostic).map (·.code) =
            ["E1001", "E1007", "E1016"] := by
    decide +kernel
  obtain ⟨hlength, heval⟩ := heval
  refine ⟨hlength, fun m hm => ?_⟩
  obtain ⟨hrendered, harms, hcodes⟩ := heval m hm
  obtain ⟨r, hr, hrendered⟩ := Option.map_eq_some_iff.mp hrendered
  obtain ⟨inScrutinee, inArms, hsplit, -, haccounts, -, -, hcount, -⟩ :=
    parcels.arms_accounted hm hr
  refine ⟨r, hr, hrendered, inArms, haccounts, ?_⟩
  -- three findings are accounted for by the arms, so that none is left for the expression
  have hrows : r.arms.length = 2 := by simpa using congrArg List.length hrendered
  have hall : inScrutinee.length + inArms.length = 3 := by
    simpa [hsplit] using congrArg List.length hcodes
  have hnil : inScrutinee = [] := List.length_eq_zero_iff.mp (by omega)
  rwa [hsplit, hnil] at hcodes

end MatchCheck
