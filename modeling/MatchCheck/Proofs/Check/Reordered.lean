import MatchCheck.Proofs.Check.Relocated
import MatchCheck.Proofs.Signature.Declared

/-!
# The order of declarations

Declarations may stand in any order, before or behind what refers to them. A signature whose types
are listed in another order finds the same type under every name (`Signature.Reorders.type?_eq`),
and all that coverage asks of a signature is the type of a field. Only the list of all constructors
of one name comes in the order of declaration, and it is read in two places: an expression is
ambiguous if the list is too long, and a name of another type is blamed on the first type in the
list. Both only word the finding differently.

So a program whose items are put into another order has the same findings, except for the types that
are named as the owners of a constructor (`Diagnostic.forgetOwners`). The matches keep their order
among each other, since findings come match by match.
-/

namespace MatchCheck

/-! ### Signatures in another order -/

namespace Signature

variable {sig sig' : Signature}

/-- The same types of distinct names, in whatever order. -/
structure Reorders (sig' sig : Signature) : Prop where
  types : sig'.types.Perm sig.types
  distinct : sig.Distinct

namespace Reorders

/-- Distinct names stay distinct in another order. -/
theorem distinct_left (h : sig'.Reorders sig) : sig'.Distinct where
  types := ((h.types.map _).nodup_iff).mpr h.distinct.types
  ctors ty hty := h.distinct.ctors ty (h.types.subset hty)

/-- **A type is found by its name in either order.** This is all that a lookup depends on. -/
theorem type?_eq (h : sig'.Reorders sig) : sig'.type? = sig.type? := by
  funext name
  ext ty
  rw [type?_eq_some_iff h.distinct_left, type?_eq_some_iff h.distinct, h.types.mem_iff]

theorem fieldType?_eq (h : sig'.Reorders sig) : sig'.fieldType? = sig.fieldType? := by
  funext c
  rw [fieldType?, fieldType?, h.type?_eq]

theorem ctor?_eq (h : sig'.Reorders sig) : sig'.ctor? = sig.ctor? := by
  funext c
  rw [Signature.ctor?, Signature.ctor?, h.type?_eq]

/-- The constructors of a name are the same, but may come in another order. -/
theorem ctorsNamed_perm (h : sig'.Reorders sig) (name : String) :
    (sig'.ctorsNamed name).Perm (sig.ctorsNamed name) :=
  h.types.flatMap_right _

end Reorders

end Signature

/-! ### Coverage -/

namespace Shape

variable {sig sig' : Signature}

/-- What is missing does not depend on the order of the types. -/
theorem missing_reorders (h : sig'.Reorders sig) (ty : TypeDef) (shapes : List Shape) :
    missing sig' ty shapes = missing sig ty shapes := by
  -- along the recursion over the types of fields
  induction ty, shapes using missing.induct with
  | case1 ty shapes hany => rw [missing_of_any hany, missing_of_any hany]
  | case2 ty shapes hany ih =>
    have hany : shapes.any isAny = false := Bool.eq_false_iff.mpr hany
    rw [missing_eq_flatMap hany, missing_eq_flatMap hany]
    refine List.flatMap_congr fun c _ => ?_
    -- the order of types matters to no lookup of a field type
    simp only [missingOf, h.fieldType?_eq]
    split
    · next hnamed =>
      cases sig.fieldType? c with
      | none => rfl
      | some fieldTy => exact congrArg _ (ih c hnamed fieldTy)
    · rfl

theorem useful_reorders (h : sig'.Reorders sig) (ty : TypeDef) (earlier : List Shape) (s : Shape) :
    useful sig' ty earlier s = useful sig ty earlier s := by
  induction s generalizing ty earlier with
  | any => rw [useful, useful, exhaustive, exhaustive, missing_reorders h]
  | bare c => rw [useful, useful]
  | wrap c arg ih => simp only [useful, h.ctor?_eq, h.fieldType?_eq, ih]

theorem unreachableFrom_reorders {α : Type} (h : sig'.Reorders sig) (ty : TypeDef)
    (earlier : List Shape) (rows : List (α × Shape)) :
    unreachableFrom sig' ty earlier rows = unreachableFrom sig ty earlier rows := by
  induction rows generalizing earlier with
  | nil => rfl
  | cons row rows ih => rw [unreachableFrom, unreachableFrom, useful_reorders h, ih]

end Shape

/-! ### Resolving -/

/-- A finding without the types that own a constructor: they are named where a constructor is of a
wrong type, and where it is ambiguous. -/
def Diagnostic.forgetOwners (d : Diagnostic) : Diagnostic :=
  if d.code = Code.wrongConstructorType.text ∨ d.code = Code.ambiguousConstructor.text then
    { d with message := "", notes := [] }
  else d

theorem Diagnostic.span_forgetOwners (d : Diagnostic) : d.forgetOwners.span = d.span := by
  unfold forgetOwners
  split <;> rfl

/-- What is reported about a misfit in whatever order the types are declared. -/
def MatchError.gist (e : MatchError) : Diagnostic :=
  e.diagnostic.forgetOwners

/-- Which type owns a constructor of a wrong type is forgotten. -/
theorem MatchError.gist_wrongType (name : Ident) (found found' : TypeDef × CtorDef)
    (expected : TypeDef) :
    (wrongType name found expected).gist = (wrongType name found' expected).gist := by
  simp [gist, Diagnostic.forgetOwners, diagnostic, Diagnostic.error, Diagnostic.addNote]

theorem MatchError.gist_ambiguousScrutinee (name : Ident)
    (several several' : List (TypeDef × CtorDef)) :
    (ambiguousScrutinee name several).gist = (ambiguousScrutinee name several').gist := by
  simp [gist, Diagnostic.forgetOwners, diagnostic, Diagnostic.error]

/-- Results with the same errors up to `f` are the same value or two such errors. -/
theorem cases_of_mapError_eq {ε δ α : Type} {f : ε → δ} {x y : Except ε α}
    (h : x.mapError f = y.mapError f) :
    (∃ a, x = .ok a ∧ y = .ok a) ∨ ∃ e e', x = .error e ∧ y = .error e' ∧ f e = f e' := by
  cases x with
  | ok a =>
    cases y with
    | ok b => exact .inl ⟨a, rfl, congrArg _ (Except.ok.inj h).symm⟩
    | error e => cases h
  | error e =>
    cases y with
    | ok b => cases h
    | error e' => exact .inr ⟨e, e', rfl, rfl, Except.error.inj h⟩

namespace Signature

variable {sig sig' : Signature}

/-- A constructor that is not of the type is reported alike, whichever type owns it. -/
theorem gist_misplaced (h : sig'.Reorders sig) (expected : TypeDef) (name : Ident)
    (unknown : MatchError) :
    (sig'.misplaced expected name unknown).gist = (sig.misplaced expected name unknown).gist := by
  unfold misplaced
  -- which type comes first depends on the order, but not whether there is one
  have hperm := h.ctorsNamed_perm name.name
  cases hnamed : sig.ctorsNamed name.name with
  | nil =>
    rw [hnamed] at hperm
    rw [hperm.eq_nil]
  | cons found named =>
    obtain ⟨found', named', hnamed'⟩ :=
      List.exists_cons_of_ne_nil (fun hnil => by simp [hnil, hnamed] at hperm :
        sig'.ctorsNamed name.name ≠ [])
    rw [hnamed']
    exact MatchError.gist_wrongType name found' found expected

/-- **A pattern resolves alike**, up to the owners in its errors. -/
theorem gist_resolve (h : sig'.Reorders sig) (ty : TypeDef) (p : Pattern) :
    (sig'.resolve ty p).mapError MatchError.gist = (sig.resolve ty p).mapError MatchError.gist := by
  -- down the pattern, as it is resolved
  cases p with
  | wildcard span => rw [resolve, resolve]
  | ctor span name args =>
    rw [resolve, resolve]
    cases ty.ctor? name.name with
    | none => exact congrArg Except.error (gist_misplaced h ty name _)
    | some c =>
      simp only
      -- only a field with one argument goes down to the argument
      cases c.field with
      | none => cases args <;> rfl
      | some field =>
        rcases args with _ | ⟨arg, _ | ⟨second, args⟩⟩
        · rfl
        · simp only [h.type?_eq]
          cases sig.type? field with
          | none => rfl
          | some fieldTy =>
            obtain ⟨s, hs', hs⟩ | ⟨e', e, he', he, hgist⟩ :=
              cases_of_mapError_eq (gist_resolve h fieldTy arg)
            · simp only [hs', hs]
            · simp only [he', he]
              exact congrArg Except.error hgist
        · rfl
termination_by p

/-- The argument of a matched expression is found fault with alike. -/
theorem gist_argumentError? (h : sig'.Reorders sig) (c : CtorDef) (e : Expr) :
    (sig'.argumentError? c e).map MatchError.gist =
      (sig.argumentError? c e).map MatchError.gist := by
  -- the lookups agree, so both signatures take the same branch; only candidates may be listed
  -- otherwise
  fun_induction sig.argumentError? c e with
  | case1 c span name hfield =>
    rw [argumentError?.eq_def]
    simp only [hfield]
  | case2 c span name field arg hfield fieldTy htype d hctor ih =>
    rw [argumentError?.eq_def]
    simp only [hfield, h.type?_eq, htype, hctor, ih]
  | case3 c span name field arg hfield fieldTy htype hctor =>
    rw [argumentError?.eq_def]
    simp only [hfield, h.type?_eq, htype, hctor]
    exact congrArg some (gist_misplaced h fieldTy arg.name _)
  | case4 c span name field arg hfield htype =>
    rw [argumentError?.eq_def]
    simp only [hfield, h.type?_eq, htype]
  | case5 c span name args hnone hsome =>
    rw [argumentError?.eq_def]
    simp only

/-- The types that a matched expression may have are the same, in whatever order. -/
theorem Reorders.candidates_perm (h : sig'.Reorders sig) (e : Expr) :
    (sig'.candidates e).Perm (sig.candidates e) := by
  have hnamed := h.ctorsNamed_perm e.name.name
  have hfitting := hnamed.filter fun found => decide (found.2.arity = e.args.length)
  -- constructors of the right arity are preferred in both orders or in none
  simp only [candidates, hfitting.isEmpty_eq]
  split
  · exact hnamed
  · exact hfitting

/-- A matched expression has the same type, or none for a reason that is reported alike. -/
theorem gist_scrutinee (h : sig'.Reorders sig) (e : Expr) :
    (sig'.scrutinee e).mapError MatchError.gist = (sig.scrutinee e).mapError MatchError.gist := by
  have hperm := h.candidates_perm e
  unfold scrutinee
  rcases hcandidates : sig.candidates e with _ | ⟨found, _ | ⟨other, several⟩⟩ <;>
    rw [hcandidates] at hperm
  · rw [hperm.eq_nil]
  · rw [hperm.eq_singleton]
  · -- at least two candidates in both orders
    rcases hcandidates' : sig'.candidates e with _ | ⟨found', _ | ⟨other', several'⟩⟩ <;>
      rw [hcandidates'] at hperm
    · exact absurd hperm.length_eq (by simp)
    · exact absurd hperm.length_eq (by simp)
    · exact congrArg Except.error (MatchError.gist_ambiguousScrutinee ..)

/-- Arms that fit a type do so in whatever order the types are declared. -/
theorem resolvedArms_reorders (h : sig'.Reorders sig) (ty : TypeDef) (arms : List Arm) :
    sig'.resolvedArms ty arms = sig.resolvedArms ty arms := by
  refine List.filterMap_congr fun arm _ => ?_
  obtain ⟨s, hs', hs⟩ | ⟨e', e, he', he, -⟩ := cases_of_mapError_eq (gist_resolve h ty arm.pattern)
  · rw [hs', hs]
  · rw [he', he]
    rfl

/-- The misfits among arms are reported alike. -/
theorem gist_armErrors (h : sig'.Reorders sig) (ty : TypeDef) (arms : List Arm) :
    (sig'.armErrors ty arms).map MatchError.gist = (sig.armErrors ty arms).map MatchError.gist := by
  simp only [armErrors, List.map_filterMap]
  refine List.filterMap_congr fun arm _ => ?_
  obtain ⟨s, hs', hs⟩ | ⟨e', e, he', he, hgist⟩ :=
    cases_of_mapError_eq (gist_resolve h ty arm.pattern)
  · rw [hs', hs]
  · rw [he', he]
    exact congrArg some hgist

/-- **A match resolves alike** in whatever order the types are declared. -/
theorem resolveMatch_reorders (h : sig'.Reorders sig) (m : MatchExpr) :
    (sig'.resolveMatch m).1 = (sig.resolveMatch m).1 ∧
      (sig'.resolveMatch m).2.map MatchError.gist =
        (sig.resolveMatch m).2.map MatchError.gist := by
  unfold resolveMatch
  -- both signatures find the same type, or both find none
  obtain ⟨found, hfound', hfound⟩ | ⟨e', e, he', he, hgist⟩ :=
    cases_of_mapError_eq (gist_scrutinee h m.scrutinee)
  · rw [hfound', hfound]
    simp only [resolvedArms_reorders h, List.map_append, gist_armErrors h, true_and]
    rw [← Option.toList_map, ← Option.toList_map, gist_argumentError? h]
  · rw [he', he]
    exact ⟨rfl, congrArg (fun d => [d]) hgist⟩

end Signature

/-! ### Checking -/

namespace MatchExpr

variable {sig sig' : Signature} (h : sig'.Reorders sig) (options : CheckOptions) (m : MatchExpr)

include h

/-- The misfits of a match are reported alike, up to owners. -/
theorem forgetOwners_misfits :
    (m.misfits sig' options).map Diagnostic.forgetOwners =
      (m.misfits sig options).map Diagnostic.forgetOwners := by
  obtain ⟨hresolved, herrors⟩ := Signature.resolveMatch_reorders h m
  have harms (r : ResolvedMatch) : unreachableArms sig' r = unreachableArms sig r := by
    rw [unreachableArms, unreachableArms, Shape.unreachableFrom_reorders h]
  simp only [misfits, hresolved, harms, List.map_append, List.map_map]
  exact congrArg (· ++ _) herrors

/-- What a match misses is reported alike. -/
theorem missingFinding_reorders : m.missingFinding sig' options = m.missingFinding sig options := by
  have hmissing : missingCases sig' options m = missingCases sig options m := by
    funext r
    rw [missingCases, missingCases, Shape.missing_reorders h]
  rw [missingFinding, missingFinding, (Signature.resolveMatch_reorders h m).1, hmissing]

/-- Apart from owners of constructors, a match is reported alike in whatever order the types are
declared. -/
theorem forgetOwners_check :
    (m.check sig' options).map Diagnostic.forgetOwners =
      (m.check sig options).map Diagnostic.forgetOwners := by
  have hstart (d : Diagnostic) : d.forgetOwners.span.start.offset = d.span.start.offset := by
    rw [d.span_forgetOwners]
  rw [check_eq, check_eq, List.map_append, List.map_append, missingFinding_reorders h]
  refine congrArg (· ++ _) ?_
  -- only with the warning on are the findings of a match sorted
  cases options.redundantArms with
  | allow => exact m.forgetOwners_misfits h options
  | warn =>
    -- sorting looks at the starts alone, and these stay
    simp only [← Diagnostic.sortByStart_map hstart, m.forgetOwners_misfits h options]

end MatchExpr

namespace Program

variable {p q : Program} (hnames : (p.enumDecls.map (·.name.name)).Nodup)
  (hdecls : q.enumDecls.Perm p.enumDecls)

include hnames hdecls

/-- Different names stay different in another order. -/
theorem nodup_names_of_perm : (q.enumDecls.map (·.name.name)).Nodup :=
  ((hdecls.map _).nodup_iff).mpr hnames

/-- Declarations of different names declare the same types in whatever order. -/
theorem signature_reorders : q.signature.Reorders p.signature where
  types := by
    rw [types_signature, types_signature, firsts_of_nodup _ (nodup_names_of_perm hnames hdecls),
      firsts_of_nodup _ hnames]
    exact hdecls.map _
  distinct := p.signature_distinct

/-- Declarations of different names have the same errors in whatever order. -/
theorem declErrors_reorders : q.declErrors.Perm p.declErrors := by
  -- no name is declared twice, so every declaration counts
  have hrepeated : q.repeatedTypes = p.repeatedTypes := by
    rw [repeatedTypes, repeatedTypes, repeats_of_nodup _ (nodup_names_of_perm hnames hdecls),
      repeats_of_nodup _ hnames]
  have hctors : q.repeatedCtors.Perm p.repeatedCtors := by
    rw [repeatedCtors, repeatedCtors, firsts_of_nodup _ (nodup_names_of_perm hnames hdecls),
      firsts_of_nodup _ hnames]
    exact hdecls.flatMap_right _
  have hfields : q.unknownFields.Perm p.unknownFields := by
    have hknown (f : Ident) :
        f.name ∈ q.enumDecls.map (·.name.name) ↔ f.name ∈ p.enumDecls.map (·.name.name) :=
      (hdecls.map _).mem_iff
    simp only [unknownFields, hknown]
    exact hdecls.flatMap_right _
  -- the errors of the three kinds are put side by side
  refine q.declErrors_perm.trans (List.Perm.trans ?_ p.declErrors_perm.symm)
  rw [hrepeated]
  exact (hctors.append_left _).append hfields

/-- The findings about declarations that begin at different offsets have one order alone. -/
theorem declFindings_reorders
    (hstarts : ((p.declErrors.map DeclError.diagnostic).map (·.span.start.offset)).Nodup) :
    q.declFindings = p.declFindings := by
  have hperm : q.declFindings.Perm p.declFindings :=
    (Diagnostic.sortByStart_perm _).trans <|
      ((declErrors_reorders hnames hdecls).map _).trans (Diagnostic.sortByStart_perm _).symm
  refine Diagnostic.eq_of_perm hperm (Diagnostic.pairwise_sortByStart _)
    (Diagnostic.pairwise_sortByStart _) ?_
  exact ((Diagnostic.sortByStart_perm _).map _).nodup_iff.mpr hstarts

end Program

/-- **The order of declarations does not matter.** If the declared types have different names, then
the items of a program may be put into any order in which the matches follow each other as before.
Nothing but the owners of constructors is reported differently, and every match has the same arms,
the same missing cases in the same order and the same arms that can never be reached. -/
theorem Source.check_reordered {source : Source} {q : Program}
    (hnames : (source.program.1.enumDecls.map (·.name.name)).Nodup)
    (hitems : q.items.Perm source.program.1.items)
    (hmatches : q.matchExprs = source.program.1.matchExprs) (options : CheckOptions) :
    (q.check options).map Diagnostic.forgetOwners =
        (source.program.1.check options).map Diagnostic.forgetOwners ∧
      ∀ m ∈ source.program.1.matchExprs,
        (q.signature.resolveMatch m).1 = (source.program.1.signature.resolveMatch m).1 ∧
          ∀ r ∈ (source.program.1.signature.resolveMatch m).1,
            Shape.missing q.signature r.type r.shapes =
                Shape.missing source.program.1.signature r.type r.shapes ∧
              Shape.unreachableFrom q.signature r.type [] r.arms =
                Shape.unreachableFrom source.program.1.signature r.type [] r.arms := by
  have hdecls : q.enumDecls.Perm source.program.1.enumDecls := hitems.filterMap _
  have hsig := Program.signature_reorders hnames hdecls
  constructor
  · -- no two names of a source begin at one offset, so the sort leaves no choice
    have hstarts := Program.nodup_starts_declErrors source.ascending_names
    rw [Program.check, Program.check, hmatches, Program.declFindings_reorders hnames hdecls hstarts,
      List.map_append, List.map_append, List.map_flatMap, List.map_flatMap]
    exact congrArg _ (List.flatMap_congr fun m _ => m.forgetOwners_check hsig options)
  · intro m _
    refine ⟨(Signature.resolveMatch_reorders hsig m).1, fun r _ => ?_⟩
    exact ⟨Shape.missing_reorders hsig .., Shape.unreachableFrom_reorders hsig ..⟩

/-- A match with a missing case and an arm whose constructor belongs to two other types. -/
def Source.shelf : Source :=
  .ofString "shelf.pmxc" <|
    "enum Box \x7b Full(Toy)\nEmpty \x7d\nenum Toy \x7b Ball \x7d\nenum Sport \x7b Ball \x7d\n"
      ++ "match Empty \x7b Full(Ball) => \x7b\x7d, Ball => \x7b\x7d \x7d"

/-- The same with the items from the last to the first. -/
def Source.shelfReversed : Program :=
  ⟨shelf.program.1.items.reverse⟩

/-- The two are reported differently, and only in the owner of `Ball`. -/
theorem Source.shelf_checked_alike :
    shelfReversed.check ⟨.warn, 3⟩ ≠ shelf.program.1.check ⟨.warn, 3⟩ ∧
      (shelfReversed.check ⟨.warn, 3⟩).map Diagnostic.forgetOwners =
        (shelf.program.1.check ⟨.warn, 3⟩).map Diagnostic.forgetOwners := by
  have hsource : (shelf.program.1.enumDecls.map (·.name.name)).Nodup ∧
      shelf.program.1.matchExprs.length = 1 := by decide +kernel
  have hmatches : shelfReversed.matchExprs = shelf.program.1.matchExprs := by
    -- one match alone stays the first from either side
    obtain ⟨m, hm⟩ := List.length_eq_one_iff.mp hsource.2
    have hreverse : shelfReversed.matchExprs = shelf.program.1.matchExprs.reverse :=
      List.filterMap_reverse
    rw [hreverse, hm]
    rfl
  refine ⟨by decide +kernel, ?_⟩
  exact (check_reordered hsource.1 (List.reverse_perm _) hmatches _).1

end MatchCheck
