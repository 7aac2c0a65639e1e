import MatchCheck.Proofs.Check.Blocks
import MatchCheck.Proofs.Fix.Made
import MatchCheck.Proofs.Fix.Suggested

/-!
# Every suggested edit is made

Edits that come from anywhere may be in each other's way, and then some of them are left out. The
edits that the findings about a source suggest never are. They remove arms, which stand one behind
the other, or they put new arms in front of a closing brace, which stands behind all arms of its
match; and the matches themselves stand one behind the other. An arm may end where new arms are put,
but no two of the edits begin at one offset (`Edit.Precedes`), so none of them is taken for another
one. This needs no program without syntax errors: a match that could be read lies in its source as
it should, whatever stands around it.

Findings and edits can then be counted against each other. A finding suggests one edit if it is
about an unreachable arm or about missing cases, and none otherwise (`Fixed.length_editsOf`), so
there are as many fixes as selected findings of these two kinds (`Source.no_fix_lost`).
-/

namespace MatchCheck

/-! ### Edits one behind the other -/

/-- An edit ends before another one begins, or where it begins, and begins before it. -/
structure Edit.Precedes (e f : Edit) : Prop where
  inFront : e.InFront f
  start_lt : e.span.start.offset < f.span.start.offset

theorem Edit.valid_of_genuine {source : Source} {e : Edit} (h : e.span.Genuine source) :
    e.Valid source.text :=
  ⟨h.ordered, h.start_boundary, h.stop_boundary⟩

/-- Valid edits that stand one behind the other can be made at once. -/
theorem Spliced.exists_of_inFront {before text : List Char} {es : List Edit}
    (hvalid : ∀ e ∈ es, e.Valid (before ++ text))
    (hbehind : ∀ e ∈ es, Text.byteLength before ≤ e.span.start.offset)
    (hes : es.Pairwise Edit.InFront) :
    ∃ text', Spliced (Text.byteLength before) es text text' := by
  induction es generalizing before text with
  | nil => exact ⟨text, .done _ _⟩
  | cons e es ih =>
    obtain ⟨he, hes⟩ := List.pairwise_cons.mp hes
    obtain ⟨hevalid, hvalid⟩ := List.forall_mem_cons.mp hvalid
    obtain ⟨front, gone, behind, hcut, hstart, hstop⟩ := hevalid.exists_cut
    -- the edit begins behind what is passed already, so it cuts what is left
    have hle : Text.byteLength before ≤ Text.byteLength front := by
      rw [← hstart]
      exact hbehind e List.mem_cons_self
    obtain ⟨mid, rfl, rfl⟩ := Text.exists_mid hcut.symm hle
    have hlength : Text.byteLength (before ++ (mid ++ gone)) = e.span.stop.offset := by
      simp only [Text.byteLength_append] at hstart ⊢
      omega
    have htext : before ++ (mid ++ (gone ++ behind)) = before ++ (mid ++ gone) ++ behind := by
      simp
    rw [htext] at hvalid
    -- the others are made behind its end
    have hothers : ∀ f ∈ es, Text.byteLength (before ++ (mid ++ gone)) ≤ f.span.start.offset := by
      intro f hf
      rw [hlength]
      exact he f hf
    obtain ⟨behind', hspliced⟩ := ih hvalid hothers hes
    rw [hlength] at hspliced
    refine ⟨mid ++ (e.replacement.toList ++ behind'), .edit ?_ hstop hspliced⟩
    rw [hstart, Text.byteLength_append]

/-- Findings whose edits are valid and precede each other, in whatever order they are found, have
all of them made. -/
theorem Fixed.ofFindings_of_precedes {text : List Char} {ds : List Diagnostic}
    {only? : Option (List String)} {es : List Edit} (hperm : (Fixed.edits only? ds).Perm es)
    (hvalid : ∀ e ∈ es, e.Valid text) (hes : es.Pairwise Edit.Precedes) :
    Spliced 0 es text (Fixed.ofFindings text ds only?).text ∧
      (Fixed.ofFindings text ds only?).count = es.length := by
  -- the edits are cut out of the text from its front, where nothing is passed yet
  have hspliced : ∃ text', Spliced (Text.byteLength []) es text text' :=
    Spliced.exists_of_inFront hvalid (fun _ _ => Nat.zero_le _) (hes.imp Edit.Precedes.inFront)
  obtain ⟨text', hspliced⟩ := hspliced
  rw [Fixed.ofFindings_eq hperm (hes.imp Edit.Precedes.start_lt) hspliced]
  exact ⟨hspliced, rfl⟩

/-! ### The edits of a match -/

namespace MatchExpr

variable {source : Source} {sig : Signature} {repair : Repair} {m : MatchExpr}

theorem removed_sublist (m : MatchExpr) : (m.removed sig repair).Sublist m.arms := by
  unfold removed unreachable
  split
  · split
    · exact List.nil_sublist _
    · next ty _ _ =>
      -- an arm that is reported is one of those that resolve, each with its shape
      refine ((Shape.unreachableFrom_sublist sig ty [] _).map _).trans ?_
      unfold Signature.resolvedArms
      rw [List.map_filterMap]
      induction m.arms with
      | nil => exact .slnil
      | cons arm arms ih =>
        cases hresolve : (sig.resolve ty arm.pattern).toOption with
        | none =>
          rw [List.filterMap_cons_none (by simp [hresolve])]
          exact ih.cons arm
        | some s =>
          rw [List.filterMap_cons_some (b := arm) (by simp [hresolve])]
          exact ih.cons_cons arm
  · exact List.nil_sublist _

/-- Every arm stands in front of the closing brace, and brace and arms lie inside the match. -/
theorem arms_before_close (h : m.layout.Sound source) :
    (∀ arm ∈ m.arms, arm.span.Before m.closeSpan) ∧ (∀ arm ∈ m.arms, m.span.Contains arm.span) ∧
      m.span.Contains m.closeSpan := by
  cases h with
  | piece _ inside ordered _ =>
    -- behind the keyword and the expression come the arms, and then the brace
    have ordered := (List.pairwise_cons.mp (List.pairwise_cons.mp ordered).2).2
    obtain ⟨-, inside⟩ := List.forall_mem_cons.mp (List.forall_mem_cons.mp inside).2
    obtain ⟨harms, hclose⟩ := List.forall_mem_append.mp inside
    refine ⟨fun arm harm => ?_, fun arm harm => harms _ (List.mem_map_of_mem harm),
      hclose _ (List.mem_singleton_self _)⟩
    exact (List.pairwise_append.mp ordered).2.2 _ (List.mem_map_of_mem harm) _
      (List.mem_singleton_self _)

/-- If all spans of a match are of one kind, then so are those of the arms and the closing brace. -/
theorem all_edited {G : Span → Prop} (h : m.layout.All G) :
    (∀ arm ∈ m.arms, G arm.span) ∧ G m.closeSpan := by
  cases h with
  | piece _ hparts =>
    obtain ⟨-, hparts⟩ := List.forall_mem_cons.mp (List.forall_mem_cons.mp hparts).2
    obtain ⟨harms, hclose⟩ := List.forall_mem_append.mp hparts
    exact ⟨fun arm harm => (harms _ (List.mem_map_of_mem harm)).span,
      (hclose _ (List.mem_singleton_self _)).span⟩

/-- An edit of a match removes one of its arms, or adds arms in front of the closing brace. -/
theorem of_mem_repairEdits {e : Edit} (he : e ∈ m.repairEdits sig repair) :
    (∃ arm ∈ m.arms, e.span = arm.span) ∨ e.span = m.closeSpan.shrinkToStart := by
  rcases List.mem_append.mp he with he | he
  · obtain ⟨arm, harm, rfl⟩ := List.mem_map.mp he
    exact .inl ⟨arm, (removed_sublist m).subset harm, rfl⟩
  · -- nothing is added, or one edit is made for all new arms
    unfold insertions at he
    split at he
    · cases he
    · obtain rfl := List.mem_singleton.mp he
      exact .inr rfl

/-- The edits of a match lie inside it and begin before its end. -/
theorem repairEdits_inside (hsound : m.layout.Sound source) (hproper : m.layout.All Span.Proper) :
    ∀ e ∈ m.repairEdits sig repair, e.Valid source.text ∧ m.span.Contains e.span ∧
      e.span.start.offset < m.span.stop.offset := by
  obtain ⟨-, hinside, hclose⟩ := arms_before_close hsound
  obtain ⟨hgenuine, hgenuineClose⟩ := all_edited hsound.all
  obtain ⟨hnonempty, hnonemptyClose⟩ := all_edited hproper
  intro e he
  rcases of_mem_repairEdits he with ⟨arm, harm, hspan⟩ | hspan
  · have hvalid : e.Valid source.text := Edit.valid_of_genuine (hspan ▸ hgenuine arm harm)
    rw [hspan]
    exact ⟨hvalid, hinside arm harm, (hnonempty arm harm).trans_le (hinside arm harm).stop_le⟩
  · have hvalid : e.Valid source.text :=
      Edit.valid_of_genuine (hspan ▸ hgenuineClose.shrinkToStart)
    -- arms are added at the start of the brace, which is not empty
    have hlt : m.closeSpan.start.offset < m.span.stop.offset :=
      hnonemptyClose.trans_le hclose.stop_le
    rw [hspan]
    exact ⟨hvalid, ⟨hclose.start_le, hlt.le⟩, hlt⟩

/-- The edits of a match precede each other: first the arms that are removed, from front to back,
and then those that are added. -/
theorem precedes_repairEdits (hsound : m.layout.Sound source)
    (hproper : m.layout.All Span.Proper) : (m.repairEdits sig repair).Pairwise Edit.Precedes := by
  have hordered := (ordered_parts hsound).2.1
  obtain ⟨hbefore, -, -⟩ := arms_before_close hsound
  obtain ⟨hnonempty, -⟩ := all_edited hproper
  have hsub : (m.removed sig repair).Sublist m.arms := removed_sublist m
  refine List.pairwise_append.mpr ⟨?_, ?_, ?_⟩
  · refine List.pairwise_map.mpr ((hordered.imp_of_mem fun {a b} ha _ hab => ?_).sublist hsub)
    exact ⟨hab, hab.start_lt (hnonempty a ha)⟩
  · unfold insertions
    split
    · exact .nil
    · exact List.pairwise_singleton _ _
  · intro e he f hf
    obtain ⟨arm, harm, rfl⟩ := List.mem_map.mp he
    have hspan : f.span = m.closeSpan.shrinkToStart := by
      unfold insertions at hf
      split at hf
      · cases hf
      · obtain rfl := List.mem_singleton.mp hf
        rfl
    have harm := hsub.subset harm
    -- an arm may end where the new arms are put, but it does not begin there
    have hfront : arm.span.stop.offset ≤ f.span.start.offset := by
      rw [hspan]
      exact hbefore arm harm
    exact ⟨hfront, (hnonempty arm harm).trans_le hfront⟩

end MatchExpr

/-- The edits of all matches of a source are valid and precede each other. -/
theorem Source.precedes_repairEdits (source : Source) (sig : Signature) (repair : Repair) :
    (∀ e ∈ source.program.1.matchExprs.flatMap (MatchExpr.repairEdits sig repair),
        e.Valid source.text) ∧
      (source.program.1.matchExprs.flatMap (MatchExpr.repairEdits sig repair)).Pairwise
        Edit.Precedes := by
  have hinside : ∀ m ∈ source.program.1.matchExprs, ∀ e ∈ m.repairEdits sig repair,
      e.Valid source.text ∧ m.span.Contains e.span ∧
        e.span.start.offset < m.span.stop.offset := by
    intro m hm
    obtain ⟨hsound, hproper⟩ := source.sound_matchExprs m hm
    exact m.repairEdits_inside hsound hproper
  refine ⟨fun e he => ?_, List.pairwise_flatMap.mpr ⟨fun m hm => ?_, ?_⟩⟩
  · obtain ⟨m, hm, he⟩ := List.mem_flatMap.mp he
    exact (hinside m hm e he).1
  · obtain ⟨hsound, hproper⟩ := source.sound_matchExprs m hm
    exact m.precedes_repairEdits hsound hproper
  · -- matches stand one behind the other, and an edit begins before its match ends
    refine source.ordered_matchExprs.imp_of_mem fun {m n} hm hn hmn e he f hf => ?_
    obtain ⟨-, hinm, hlt⟩ := hinside m hm e he
    obtain ⟨-, hinn, -⟩ := hinside n hn f hf
    have hend : m.span.stop.offset ≤ f.span.start.offset := hmn.trans hinn.start_le
    exact ⟨hinm.stop_le.trans hend, hlt.trans_le hend⟩

/-! ### Counting findings -/

/-- Whether a finding is about missing cases or about an arm that can never be reached. -/
def Diagnostic.isFixable (d : Diagnostic) : Bool :=
  d.code == Code.nonExhaustiveMatch.text || d.code == Code.unreachableArm.text

namespace Fixed

variable {only? : Option (List String)}

/-- A finding suggests one edit if it can be fixed, and none otherwise. -/
def SuggestsOnce (d : Diagnostic) : Prop :=
  ((d.suggestions.take 1).flatMap (·.edits)).length = if d.isFixable then 1 else 0

/-- A finding that is selected has its one edit made, if it can be fixed. -/
theorem length_editsOf {d : Diagnostic} (h : SuggestsOnce d) :
    (editsOf only? d).length = if d.isFixable && selects only? d.code then 1 else 0 := by
  unfold editsOf
  cases selects only? d.code with
  | true => simpa [SuggestsOnce] using h
  | false => simp

/-- There are as many edits as selected findings that can be fixed. -/
theorem length_edits {ds : List Diagnostic} (h : ∀ d ∈ ds, SuggestsOnce d) :
    (edits only? ds).length = ds.countP fun d => d.isFixable && selects only? d.code := by
  rw [edits_eq_flatMap]
  induction ds with
  | nil => rfl
  | cons d ds ih =>
    obtain ⟨hd, hds⟩ := List.forall_mem_cons.mp h
    rw [List.flatMap_cons, List.length_append, ih hds, length_editsOf hd, List.countP_cons]
    exact Nat.add_comm _ _

theorem suggestsOnce_of_code {d : Diagnostic} {c : Code} (hcode : d.code = c.text)
    (hmissing : c ≠ .nonExhaustiveMatch) (hunreachable : c ≠ .unreachableArm)
    (hnone : d.suggestions = []) : SuggestsOnce d := by
  have hfixable : d.isFixable = false := by
    simp [Diagnostic.isFixable, hcode, Code.text_inj, hmissing, hunreachable]
  simp [SuggestsOnce, hfixable, hnone]

end Fixed

theorem SyntaxError.suggestsOnce (e : SyntaxError) : Fixed.SuggestsOnce e.diagnostic := by
  refine Fixed.suggestsOnce_of_code e.code_diagnostic (e.code_ne rfl) e.code_ne_unreachableArm ?_
  cases e <;> rfl

theorem DeclError.suggestsOnce (e : DeclError) : Fixed.SuggestsOnce e.diagnostic :=
  Fixed.suggestsOnce_of_code e.code_diagnostic (by cases e <;> simp [code])
    e.code_ne_unreachableArm e.suggestions_diagnostic

theorem MatchError.suggestsOnce (e : MatchError) : Fixed.SuggestsOnce e.diagnostic :=
  Fixed.suggestsOnce_of_code e.code_diagnostic (by cases e <;> simp [code])
    e.code_ne_unreachableArm e.suggestions_diagnostic

theorem MatchExpr.suggestsOnce {sig : Signature} {options : CheckOptions} {m : MatchExpr}
    {d : Diagnostic} (hd : d ∈ m.check sig options) : Fixed.SuggestsOnce d := by
  rw [m.check_eq] at hd
  rcases List.mem_append.mp hd with hd | hd
  · -- misfits suggest nothing; an unreachable arm suggests its removal
    rcases List.mem_append.mp (mem_reportedMisfits_iff.mp hd) with hd | hd
    · obtain ⟨e, -, rfl⟩ := List.mem_map.mp hd
      exact e.suggestsOnce
    · split at hd
      · obtain ⟨row, -, rfl⟩ := List.mem_map.mp hd
        rfl
      · cases hd
  · obtain ⟨ty, missing, rfl⟩ := exists_of_mem_missingFinding (Option.mem_toList.mp hd)
    rfl

/-- Every finding about a source suggests an edit if it can be fixed, and none otherwise. -/
theorem Source.suggestsOnce (source : Source) (options : CheckOptions) :
    ∀ d ∈ source.check options, Fixed.SuggestsOnce d := by
  intro d hd
  -- about the syntax, about declarations, and about matches
  rcases List.mem_append.mp hd with hd | hd
  · obtain ⟨e, -, rfl⟩ := List.mem_map.mp hd
    exact e.suggestsOnce
  rcases List.mem_append.mp hd with hd | hd
  · obtain ⟨e, -, rfl⟩ := List.mem_map.mp (Diagnostic.mem_sortByStart.mp hd)
    exact e.suggestsOnce
  · obtain ⟨m, -, hd⟩ := List.mem_flatMap.mp hd
    exact MatchExpr.suggestsOnce hd

/-- **No fix is lost.** Take any source, with syntax errors or without, any options and any
selection of codes. All edits that the selected findings suggest are made at once, and as many fixes
are counted as there are selected findings about missing cases or unreachable arms. -/
theorem Source.no_fix_lost (source : Source) (options : CheckOptions)
    (only? : Option (List String)) :
    (Fixed.ofFindings source.text (source.check options) only?).count =
        (source.check options).countP (fun d => d.isFixable && Fixed.selects only? d.code) ∧
      ∃ made, made.Perm (Fixed.edits only? (source.check options)) ∧
        Spliced 0 made source.text
          (Fixed.ofFindings source.text (source.check options) only?).text := by
  let program := source.program.1
  -- errors of syntax suggest nothing, so all edits are those of matches
  have hsyntax : Fixed.edits only? (source.program.2.map SyntaxError.diagnostic) = [] := by
    refine Fixed.edits_eq_nil (List.forall_mem_map.mpr fun e _ => ?_)
    cases e <;> rfl
  have hperm : (Fixed.edits only? (source.check options)).Perm
      (program.matchExprs.flatMap (MatchExpr.repairEdits program.signature
        (options.repair only?))) := by
    rw [show source.check options =
        source.program.2.map SyntaxError.diagnostic ++ program.check options from rfl,
      Fixed.edits_append, hsyntax, List.nil_append]
    exact program.edits_check_perm options only?
  obtain ⟨hvalid, hprecedes⟩ :=
    source.precedes_repairEdits program.signature (options.repair only?)
  obtain ⟨hspliced, hcount⟩ := Fixed.ofFindings_of_precedes hperm hvalid hprecedes
  refine ⟨?_, _, hperm.symm, hspliced⟩
  rw [hcount, ← hperm.length_eq]
  exact Fixed.length_edits (source.suggestsOnce options)

end MatchCheck
