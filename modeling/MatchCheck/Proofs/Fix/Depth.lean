import MatchCheck.Proofs.Check.Blocks
import MatchCheck.Proofs.Fix.ReadBack
import MatchCheck.Proofs.Program.Depth

/-!
# How deep suggested arms nest

An arm is suggested for every case that a match misses. The patterns of the match nest at most
`maxNesting` argument lists, but what they leave out can go one level further, and then the
suggested arm is refused. `Source.suggested_arms_depth` says that nothing worse can happen: no case
goes further than that, it takes a pattern at the limit to get there, and all other arms are read
back as the cases they are suggested for.

`tower_suggests_too_deep` is a match at the limit. Its only pattern nests `maxNesting` levels of a
type that refers to itself, and the case behind its innermost level is one level too deep.
-/

namespace MatchCheck

/-! ### Patterns that are refused -/

/-- A tree of a constructor over an argument is a call with one argument. -/
theorem Shape.exists_call_of_move {c : CtorRef} {arg : Shape} {t : TermTree .pattern}
    (h : t.move .forget = (wrap c arg).termTree) :
    ∃ head opening first closing, t = .call head opening (.some first .nil) closing ∧
      first.move .forget = arg.termTree := by
  -- of all trees only a call has the form of a call, and only with one argument
  cases t with
  | wildcard underscore => cases h
  | name head => cases h
  | call head opening args closing =>
    obtain ⟨-, -, hargs, -⟩ := TermTree.call.inj h
    cases args with
    | none => cases hargs
    | some first others =>
      obtain ⟨hfirst, hothers⟩ := ArgsTree.some.inj hargs
      cases others with
      | nil => exact ⟨head, opening, first, closing, rfl, hfirst⟩
      | cons comma more rest => cases hothers

namespace Reader

variable {α β : Type} {stop : Token} {e : SyntaxError}

theorem result_bind_of_error {p : Reader α} {ts : List Token} (h : (p.run ts).result = .error e)
    (f : α → Reader β) : ((p >>= f).run ts).result = .error e := by
  rw [run_bind, Reply.andThen_of_error h]

/-- An error inside the parentheses of a pattern is that of the pattern. -/
theorem result_patternWith_of_error {inner : Span → Reader (List Pattern)} (head : Terminal .ident)
    (opening : Terminal .leftParen) {ls : List Leaf}
    (h : ((inner opening.span).run (ls.map Leaf.token)).result = .error e) :
    ((patternWith stop inner).run ((head.leaf :: opening.leaf :: ls).map Leaf.token)).result =
      .error e := by
  -- the reader goes past the name and the parenthesis before the error comes up
  have hhead : head.leaf.token.kind = .ident := head.kind_eq
  have hopening : opening.leaf.token.kind = .leftParen := opening.kind_eq
  have hinner : ((inner opening.leaf.token.span).run (ls.map Leaf.token)).result = .error e := h
  simp [patternWith, arguments, ident, expect, peek, skip, Reply.andThen, hhead, hopening, hinner]

/-- An error in the first argument is that of the argument list. -/
theorem result_argumentList_of_error {element : Reader α} {ts : List Token}
    (hfirst : (ts.headD stop).kind ≠ .rightParen) (h : (element.run ts).result = .error e) :
    ((argumentList stop element).run ts).result = .error e := by
  have hnext : (next stop .rightParen).run ts = ⟨[], ts, .ok false⟩ := by
    simp [next, peek, Reply.andThen, -List.headD_eq_head?_getD, hfirst]
  rw [argumentList, run_bind, hnext]
  exact result_bind_of_error h _

/-- **Too deep a pattern is refused** at the first parenthesis beyond the limit. -/
theorem exists_tooDeep (hstop : stop.kind = .endOfInput) (s : Shape) {t : TermTree .pattern}
    (ht : t.move .forget = s.termTree) {n : Nat} (hdepth : n < s.depth) (rest : List Leaf) :
    ∃ opening, ((pattern stop n).run ((t.leaves ++ rest).map Leaf.token)).result =
      .error (.tooDeep opening) := by
  induction s generalizing t n rest with
  | any => exact absurd hdepth (Nat.not_lt_zero n)
  | bare c => exact absurd hdepth (Nat.not_lt_zero n)
  | wrap c arg ih =>
    obtain ⟨head, opening, first, closing, rfl, hfirst⟩ := Shape.exists_call_of_move ht
    have hleaves : TermTree.leaves (.call head opening (.some first .nil) closing) ++ rest =
        head.leaf :: opening.leaf :: (first.leaves ++ closing.leaf :: rest) := by
      simp [TermTree.leaves, ArgsTree.leaves, MoreArgs.leaves]
    rw [hleaves]
    -- with no level left this very parenthesis is refused, else one of the argument
    cases n with
    | zero => exact ⟨opening.span, result_patternWith_of_error head opening rfl⟩
    | succ n =>
      obtain ⟨span, hspan⟩ := ih hfirst (Nat.lt_of_succ_lt_succ hdepth) (closing.leaf :: rest)
      have hparen : stop.kind ≠ .rightParen := by simp [hstop]
      have hkind := kind_headD_ne hparen
        (first.beginsNot_append (by decide) (by decide) (closing.leaf :: rest))
      exact ⟨span, result_patternWith_of_error head opening
        (result_argumentList_of_error hkind hspan)⟩

end Reader

/-! ### Arms that are written for shapes -/

namespace Shape

variable {sig : Signature} {ty : TypeDef} {s : Shape}

/-- The text of an arm for a shape has its tree, up to places: the tree of the shape, an arrow and a
body. -/
theorem exists_armTree (hs : s.Spelled) (path : String) :
    ∃ (t : TermTree .pattern) (arrow : Terminal .fatArrow) (body : BlockTree),
      Source.leaves ⟨path, (newArm s).toList⟩ = t.leaves ++ arrow.leaf :: body.leaves ∧
        t.move .forget = s.termTree := by
  have htiled : Lexeme.Tiled s.armLexemes := by
    simpa using tiled_armLexemes_append hs .nil
  have houtline : Lexeme.outline s.armLexemes = s.armTree.leaves := by
    simpa [Lexeme.outline] using outline_armLexemes_append s []
  have hstrip : (Source.leaves ⟨path, (newArm s).toList⟩).map Leaf.strip = s.armTree.leaves := by
    rw [Source.map_strip_leaves, ← texts_armLexemes, Lexeme.scan_texts htiled, houtline]
  -- the tree of the arm has no comma, so neither has the tree of its text
  obtain ⟨⟨t, arrow, body, commas⟩, hleaves, hmove⟩ := s.armTree.lifts _ hstrip
  obtain ⟨ht, -, -, hcommas⟩ := ArmTree.mk.inj hmove
  obtain rfl := List.map_eq_nil_iff.mp hcommas
  refine ⟨t, arrow, body, hleaves.symm.trans ?_, ht⟩
  simp [ArmTree.leaves, ArmTree.armLeaves]

/-- An arm that is written for a shape is read, and its pattern is resolved to the shape. -/
theorem Fits.exists_arm (h : s.Fits sig ty) (hsig : sig.Distinct) (hspelled : sig.Spelled)
    (hty : ty ∈ sig.types) (hdepth : s.depth ≤ maxNesting) (path : String) :
    ∃ a, Source.readBy ⟨path, (newArm s).toList⟩ Reader.arm = ⟨[], [], .ok a⟩ ∧
      sig.resolve ty a.pattern = .ok s := by
  obtain ⟨t, arrow, body, hleaves, ht⟩ := exists_armTree (h.spelled hspelled hty) path
  rw [← List.append_nil body.leaves] at hleaves
  have hstop : (Source.endToken ⟨path, (newArm s).toList⟩).kind = .endOfInput := rfl
  -- a body in braces ends by itself, whatever follows
  have hreads := (Reader.reads_arm hstop).mpr
    ⟨t, arrow, body, hleaves, depth_eq_of_move ht ▸ hdepth, rfl⟩
  exact ⟨_, Source.readBy_eq_of_reads hreads, h.resolve_value hsig hty ht⟩

/-- An arm that is written for too deep a shape is refused. -/
theorem exists_tooDeep_arm (hs : s.Spelled) (hdepth : maxNesting < s.depth) (path : String) :
    ∃ opening, (Source.readBy ⟨path, (newArm s).toList⟩ Reader.arm).result =
      .error (.tooDeep opening) := by
  obtain ⟨t, arrow, body, hleaves, ht⟩ := exists_armTree hs path
  have hstop : (Source.endToken ⟨path, (newArm s).toList⟩).kind = .endOfInput := rfl
  obtain ⟨opening, hopening⟩ :=
    Reader.exists_tooDeep hstop s ht hdepth (arrow.leaf :: body.leaves)
  refine ⟨opening, ?_⟩
  rw [Source.readBy, ← Source.map_token_leaves, hleaves]
  exact Reader.result_bind_of_error hopening _

end Shape

/-! ### Findings about missing cases -/

namespace MatchExpr

variable {sig : Signature} {m : MatchExpr} {options : CheckOptions} {x : Diagnostic}

/-- What is reported about missing cases, and when. -/
theorem mem_missingFinding_iff :
    x ∈ m.missingFinding sig options ↔ m.missing sig ≠ [] ∧ ∃ ty c,
      sig.scrutinee m.scrutinee = .ok (ty, c) ∧
        x = nonExhaustive m ty (m.missing sig) options.maxWitnesses := by
  unfold missingFinding Signature.resolveMatch
  -- without a type nothing is missing, and nothing is reported
  cases hscrutinee : sig.scrutinee m.scrutinee with
  | error e => simp
  | ok found =>
    obtain ⟨ty, c⟩ := found
    rw [missing_of_scrutinee hscrutinee]
    simp only [Option.bind_some, missingCases, ResolvedMatch.shapes]
    cases Shape.missing sig ty ((sig.resolvedArms ty m.arms).map (·.2)) with
    | nil => simp
    | cons w ws => simp [eq_comm]

/-- Whatever a match misses is reported, and arms are suggested for it. -/
theorem exists_missingFinding {w : Shape} (hw : w ∈ m.missing sig) (options : CheckOptions) :
    ∃ x ∈ m.missingFinding sig options,
      x.suggestions = [⟨"Add missing case(s)", [m.insertion (m.missing sig)]⟩] := by
  obtain ⟨ty, c, hscrutinee⟩ := exists_scrutinee_of_mem_missing hw
  exact ⟨_, mem_missingFinding_iff.mpr ⟨List.ne_nil_of_mem hw, ty, c, hscrutinee, rfl⟩, rfl⟩

/-- Cases that a match misses go one level further than its patterns, at most. -/
theorem depth_le_of_mem_missing {w : Shape} {n : Nat} (hsig : sig.Distinct)
    (hdepth : ∀ a ∈ m.arms, a.pattern.depth ≤ n) (hw : w ∈ m.missing sig) : w.depth ≤ n + 1 := by
  obtain ⟨ty, c, hscrutinee⟩ := exists_scrutinee_of_mem_missing hw
  rw [missing_of_scrutinee hscrutinee] at hw
  -- resolved patterns fit, and are no deeper than they are written
  have hshapes : ∀ s ∈ (sig.resolvedArms ty m.arms).map (·.2), s.Fits sig ty ∧ s.depth ≤ n := by
    intro s hs
    obtain ⟨⟨a, s⟩, has, rfl⟩ := List.mem_map.mp hs
    obtain ⟨ha, hresolve⟩ := Signature.mem_resolvedArms_iff.mp has
    exact ⟨Signature.fits_of_hasShape (Signature.hasShape_of_resolve hresolve),
      Nat.le_trans (Signature.depth_le_of_resolve hresolve) (hdepth a ha)⟩
  exact Shape.depth_le_of_mem_missing hsig (Signature.mem_of_scrutinee hscrutinee).1
    (fun s hs => (hshapes s hs).1) (fun s hs => (hshapes s hs).2) hw

end MatchExpr

/-- **The findings about missing cases** are those under their code. -/
theorem Source.mem_check_nonExhaustive_iff {source : Source} {options : CheckOptions}
    {x : Diagnostic} :
    x ∈ source.check options ∧ x.code = Code.nonExhaustiveMatch.text ↔
      ∃ m ∈ source.program.1.matchExprs,
        x ∈ m.missingFinding source.program.1.signature options := by
  constructor
  · -- the code rules out syntax errors, declarations and misfits
    rintro ⟨hx, hcode⟩
    rcases List.mem_append.mp hx with hx | hx
    · obtain ⟨e, -, rfl⟩ := List.mem_map.mp hx
      have hsyntax := e.isSyntaxCode_diagnostic
      rw [hcode, Code.isSyntaxCode_text] at hsyntax
      cases hsyntax
    rcases List.mem_append.mp hx with hx | hx
    · obtain ⟨e, -, rfl⟩ := List.mem_map.mp (Diagnostic.mem_sortByStart.mp hx)
      have hdecl := e.isDeclarative_diagnostic
      rw [Diagnostic.isDeclarative_eq hcode] at hdecl
      exact absurd hdecl (by decide)
    · obtain ⟨m, hm, hx⟩ := List.mem_flatMap.mp hx
      rw [MatchExpr.check_eq] at hx
      rcases List.mem_append.mp hx with hx | hx
      · have hmisfit := MatchExpr.mem_reportedMisfits_iff.mp hx
        exact absurd hcode (MatchExpr.code_misfits_ne hmisfit)
      · exact ⟨m, hm, Option.mem_toList.mp hx⟩
  · rintro ⟨m, hm, hx⟩
    refine ⟨List.mem_append_right _ (List.mem_append_right _ (List.mem_flatMap.mpr ⟨m, hm, ?_⟩)),
      (MatchExpr.span_missingFinding hx).2⟩
    rw [MatchExpr.check_eq]
    exact List.mem_append_right _ (Option.mem_toList.mpr hx)

/-- What becomes of the arm that is suggested for a case which a match misses. -/
structure MatchExpr.Suggested (sig : Signature) (ty : TypeDef) (m : MatchExpr) (w : Shape) :
    Prop where
  /-- The case goes at most one level further than a pattern may nest. -/
  depth_le : w.depth ≤ maxNesting + 1
  /-- It goes further only behind a pattern that nests as deep as it may. -/
  at_limit : maxNesting < w.depth → ∃ a ∈ m.arms, a.pattern.depth = maxNesting
  /-- If it goes no further, the arm is read, and stands for the case. -/
  read_back : w.depth ≤ maxNesting → ∀ path, ∃ a,
    Source.readBy ⟨path, (newArm w).toList⟩ Reader.arm = ⟨[], [], .ok a⟩ ∧
      sig.resolve ty a.pattern = .ok w
  /-- If it does, the arm is refused as too deep. -/
  too_deep : maxNesting < w.depth → ∀ path, ∃ opening,
    (Source.readBy ⟨path, (newArm w).toList⟩ Reader.arm).result = .error (.tooDeep opening)

/-- **How deep suggested arms nest.** A finding about missing cases suggests an arm for each of
them. It is read back unless it nests one level too deep, which is the worst that can happen and
takes a pattern at the limit. -/
theorem Source.suggested_arms_depth (source : Source) (options : CheckOptions) {x : Diagnostic}
    (hx : x ∈ source.check options) (hcode : x.code = Code.nonExhaustiveMatch.text) :
    ∃ m ∈ source.program.1.matchExprs, ∃ ty c,
      source.program.1.signature.scrutinee m.scrutinee = .ok (ty, c) ∧
      x.suggestions =
        [⟨"Add missing case(s)", [m.insertion (m.missing source.program.1.signature)]⟩] ∧
      ∀ w ∈ m.missing source.program.1.signature,
        m.Suggested source.program.1.signature ty w := by
  obtain ⟨m, hm, hx⟩ := mem_check_nonExhaustive_iff.mp ⟨hx, hcode⟩
  obtain ⟨-, ty, c, hscrutinee, rfl⟩ := MatchExpr.mem_missingFinding_iff.mp hx
  have hsig := source.program.1.signature_distinct
  have hty := (Signature.mem_of_scrutinee hscrutinee).1
  have hpatterns : ∀ a ∈ m.arms, a.pattern.depth ≤ maxNesting := fun a ha => depth_pattern_le hm ha
  refine ⟨m, hm, ty, c, hscrutinee, rfl, fun w hw => ?_⟩
  have hfits : w.Fits source.program.1.signature ty := by
    rw [MatchExpr.missing_of_scrutinee hscrutinee] at hw
    exact Shape.fits_of_mem_missing hw
  refine ⟨MatchExpr.depth_le_of_mem_missing hsig hpatterns hw, fun hdeep => ?_,
    hfits.exists_arm hsig source.signature_spelled hty,
    Shape.exists_tooDeep_arm (hfits.spelled source.signature_spelled hty)⟩
  -- if all patterns stayed below the limit, so would the cases
  by_contra hnone
  have hbelow : ∀ a ∈ m.arms, a.pattern.depth ≤ maxNesting - 1 := fun a ha =>
    Nat.le_sub_one_of_lt (Nat.lt_of_le_of_ne (hpatterns a ha) fun h => hnone ⟨a, ha, h⟩)
  exact absurd (MatchExpr.depth_le_of_mem_missing hsig hbelow hw) (Nat.not_le.mpr hdeep)

/-- A match over a type that refers to itself, whose only arm nests as deep as a pattern may. -/
def tower : Source where
  path := "nat.pmxc"
  text := "enum N \x7b Z, S(N) \x7d\nmatch Z \x7b ".toList ++
    (List.replicate maxNesting ['S', '(']).flatten ++
      'Z' :: (List.replicate maxNesting ')' ++ " => \x7b\x7d \x7d\n".toList)

theorem tower_misses :
    tower.program.2 = [] ∧ tower.program.1.matchExprs.length = 1 ∧
      ∀ m ∈ tower.program.1.matchExprs, ∃ w ∈ m.missing tower.program.1.signature,
        maxNesting < w.depth := by
  decide +kernel

/-- The arms that are suggested for the tower, one of which is at the further level. -/
theorem tower_suggested_arms :
    ∃ x ∈ tower.check .default, x.code = Code.nonExhaustiveMatch.text ∧
      ∃ m ∈ tower.program.1.matchExprs, ∃ ty c,
        tower.program.1.signature.scrutinee m.scrutinee = .ok (ty, c) ∧
        x.suggestions =
          [⟨"Add missing case(s)", [m.insertion (m.missing tower.program.1.signature)]⟩] ∧
        ∃ w ∈ m.missing tower.program.1.signature, maxNesting < w.depth ∧
          m.Suggested tower.program.1.signature ty w := by
  obtain ⟨-, hlength, hdeep⟩ := tower_misses
  -- there is a match, it misses a case, and so there is a finding about it
  obtain ⟨n, hn⟩ := List.exists_mem_of_length_pos (hlength ▸ Nat.one_pos)
  obtain ⟨v, hv, -⟩ := hdeep n hn
  obtain ⟨x, hx, -⟩ := MatchExpr.exists_missingFinding hv .default
  obtain ⟨hcheck, hcode⟩ := Source.mem_check_nonExhaustive_iff.mpr ⟨n, hn, hx⟩
  obtain ⟨m, hm, ty, c, hscrutinee, hsuggestions, hsuggested⟩ :=
    Source.suggested_arms_depth tower .default hcheck hcode
  obtain ⟨w, hw, hdepth⟩ := hdeep m hm
  exact ⟨x, hcheck, hcode, m, hm, ty, c, hscrutinee, hsuggestions, w, hw, hdepth, hsuggested w hw⟩

/-- **A suggested arm that cannot be read.** The source has no error in its syntax, and of the arms
that are suggested for what its match misses one is refused. -/
theorem tower_suggests_too_deep :
    tower.program.2 = [] ∧ ∃ x ∈ tower.check .default, x.code = Code.nonExhaustiveMatch.text ∧
      ∃ m ∈ tower.program.1.matchExprs,
        x.suggestions =
          [⟨"Add missing case(s)", [m.insertion (m.missing tower.program.1.signature)]⟩] ∧
        ∃ w ∈ m.missing tower.program.1.signature, maxNesting < w.depth ∧ ∀ path, ∃ opening,
          (Source.readBy ⟨path, (newArm w).toList⟩ Reader.arm).result =
            .error (.tooDeep opening) := by
  obtain ⟨hreadable, hlength, hdeep⟩ := tower_misses
  obtain ⟨m, hm⟩ := List.exists_mem_of_length_pos (hlength ▸ Nat.one_pos)
  obtain ⟨w, hw, hdepth⟩ := hdeep m hm
  obtain ⟨x, hx, hsuggestions⟩ := MatchExpr.exists_missingFinding hw .default
  obtain ⟨hcheck, hcode⟩ := Source.mem_check_nonExhaustive_iff.mpr ⟨m, hm, hx⟩
  obtain ⟨ty, hty, hfits⟩ := MatchExpr.fits_of_mem_missing hw
  exact ⟨hreadable, x, hcheck, hcode, m, hm, hsuggestions, w, hw, hdepth,
    Shape.exists_tooDeep_arm (hfits.spelled tower.signature_spelled hty) hdepth⟩

end MatchCheck
