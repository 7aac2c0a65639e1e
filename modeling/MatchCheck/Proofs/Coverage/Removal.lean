import MatchCheck.Proofs.Coverage.Completion
import MatchCheck.Proofs.Fix.NewArm

/-!
# A missing case that is added is the only one to go

A missing case is a shape, and as it is written it is a pattern that resolves to this shape again.
With this pattern behind the others, the list of missing cases is what it was before without this
one case (`missing_append_witness`): nothing else is covered, nothing new is missing, and the
others keep their order. The case occurs once in the list, since no case is listed twice
(`nodup_missing`).
-/

namespace MatchCheck.Shape

variable {sig : Signature} {ty : TypeDef} {shapes : List Shape}

/-- **No case is missing twice.** -/
theorem nodup_missing (hsig : sig.Distinct) (hty : ty ∈ sig.types) :
    (missing sig ty shapes).Nodup := by
  induction ty, shapes using missing.induct with
  | case1 ty shapes hany =>
    rw [missing_of_any hany]
    exact List.nodup_nil
  | case2 ty shapes hany ih =>
    rw [missing_eq_flatMap (Bool.eq_false_iff.mpr hany), List.nodup_flatMap]
    refine ⟨fun c hc => ?_, ?_⟩
    · -- inside the part of a constructor the cases differ below the head
      cases hnamed : shapes.any (names (ty.ref c)) with
      | false =>
        rw [missingOf_of_not_named hnamed]
        exact List.nodup_singleton _
      | true =>
        cases hfield : sig.fieldType? c with
        | none =>
          rw [missingOf_of_named_closed hnamed hfield]
          exact List.nodup_nil
        | some fieldTy =>
          rw [missingOf_of_named hnamed hfield]
          exact (ih c hnamed fieldTy (Signature.mem_types_of_fieldType? hfield)).map
            fun w w' heq => (wrap.inj heq).2
    · -- cases of two constructors differ in the head
      have hnames : ty.ctors.Pairwise fun c d => c.name ≠ d.name :=
        List.pairwise_map.mp (hsig.ctors ty hty)
      refine hnames.imp fun {c d} hne w hc hd => hne ?_
      have href := names_inj (names_of_mem_missingOf hc) (names_of_mem_missingOf hd)
      exact congrArg CtorRef.name href

/-- **Adding a missing case removes exactly this case.** Take any shapes and a type in the signature
of a program. No case is missing twice. Each missing case, as it is written, resolves against the
type to the missing shape, and behind the given shapes and this one the same cases are missing in
the same order without it. Behind the given shapes and all missing ones nothing is missing. -/
theorem missing_append_witness (p : Program) {ty : TypeDef} (hty : ty ∈ p.signature.types)
    (shapes : List Shape) :
    (missing p.signature ty shapes).Nodup ∧
      (∀ w ∈ missing p.signature ty shapes,
        p.signature.resolve ty w.pattern = .ok w ∧
          missing p.signature ty (shapes ++ [w]) = (missing p.signature ty shapes).erase w) ∧
      exhaustive p.signature ty (shapes ++ missing p.signature ty shapes) = true := by
  have hsig : p.signature.Distinct := p.signature_distinct
  have hnodup : (missing p.signature ty shapes).Nodup := nodup_missing hsig hty
  refine ⟨hnodup, fun w hw => ⟨?_, ?_⟩, ?_⟩
  · exact (fits_of_mem_missing hw).resolve_pattern hsig hty
  · have hadded : [w] ⊆ missing p.signature ty shapes :=
      List.cons_subset.mpr ⟨hw, List.nil_subset _⟩
    -- added missing cases are filtered out, here just the one
    rw [missing_append_of_subset hsig hty hadded, hnodup.erase_eq_filter]
    refine List.filter_congr fun v _ => ?_
    rw [Bool.eq_iff_iff, decide_eq_true_iff, bne_iff_ne, List.mem_singleton]
  · rw [exhaustive, missing_append_missing hsig hty]
    rfl

/-- The shape of a node over a grown leaf. -/
def grownLeaf : Shape :=
  wrap ⟨"Tree", "Node"⟩ (wrap ⟨"Forest", "Grown"⟩ (bare ⟨"Tree", "Leaf"⟩))

/-- The shape of a node over a grown graft. -/
def grownGraft : Shape :=
  wrap ⟨"Tree", "Node"⟩ (wrap ⟨"Forest", "Grown"⟩ (wrap ⟨"Tree", "Graft"⟩ any))

/-- Beside a node over a grown leaf the grove misses a node over a grown graft, three levels down.
With this case added, all others are left: leaves, the bare ground and grown nodes below a node, and
grafts. -/
theorem grove_grown_graft_removed :
    grownGraft ∈ missing grove.signature tree [grownLeaf] ∧
      missing grove.signature tree ([grownLeaf] ++ [grownGraft]) =
        [bare ⟨"Tree", "Leaf"⟩, wrap ⟨"Tree", "Node"⟩ (bare ⟨"Forest", "Bare"⟩),
          wrap ⟨"Tree", "Node"⟩ (wrap ⟨"Forest", "Grown"⟩ (wrap ⟨"Tree", "Node"⟩ any)),
          wrap ⟨"Tree", "Graft"⟩ any] := by
  have hmem : grownGraft ∈ missing grove.signature tree [grownLeaf] := by decide +kernel
  have hty : tree ∈ grove.signature.types := by decide
  obtain ⟨-, hadd, -⟩ := missing_append_witness grove hty [grownLeaf]
  refine ⟨hmem, (hadd grownGraft hmem).2.trans ?_⟩
  decide +kernel

end MatchCheck.Shape
