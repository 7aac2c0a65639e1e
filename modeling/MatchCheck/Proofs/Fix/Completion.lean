import Mathlib.Data.List.Flatten
import MatchCheck.Proofs.Check.Moved
import MatchCheck.Proofs.Coverage.Completion
import MatchCheck.Proofs.Fix.Safety

/-!
# Fixes complete matches in one pass

Without warnings the only edits that findings suggest add arms for missing cases. So the fixes of a
source turn its program into the completed one (`Program.completed`), in which an arm for every
missing case stands behind the arms of each match. A completed match misses nothing
(`MatchExpr.missing_completed`) and has the misfits it had (`MatchExpr.errors_completed`).

The findings about declarations need more than the program up to places, since they are sorted by
place: the declarations of a fixed source are those of the source, moved without changing their
order (`Source.report_declFindings_fix`).

`Source.fix_completes` puts these together. Its one proviso is that a missing case nests no deeper
than a pattern may, for the reason given at `MatchTree.Mendable`.
-/

namespace MatchCheck

/-! ### Completed programs -/

/-- A match with arms for all cases that it misses, behind its own arms. -/
def MatchExpr.completed (sig : Signature) (m : MatchExpr) : MatchExpr :=
  { m with arms := m.arms ++ (m.missing sig).map Shape.arm }

/-- An item with arms for all missing cases. -/
def Item.completed (sig : Signature) : Item → Item
  | .enumDecl decl => .enumDecl decl
  | .matchExpr expr => .matchExpr (expr.completed sig)

/-- A program whose matches are completed. -/
def Program.completed (p : Program) : Program :=
  ⟨p.items.map (Item.completed p.signature)⟩

@[simp] theorem MatchExpr.scrutinee_completed (sig : Signature) (m : MatchExpr) :
    (m.completed sig).scrutinee = m.scrutinee := rfl

@[simp] theorem Program.enumDecls_completed (p : Program) :
    p.completed.enumDecls = p.enumDecls := by
  simp only [enumDecls, completed, List.filterMap_map]
  congr 1
  funext item
  cases item <;> rfl

@[simp] theorem Program.signature_completed (p : Program) :
    p.completed.signature = p.signature := by
  simp only [signature, enumDecls_completed]

@[simp] theorem Program.matchExprs_completed (p : Program) :
    p.completed.matchExprs = p.matchExprs.map (MatchExpr.completed p.signature) := by
  simp only [matchExprs, completed, List.filterMap_map, List.map_filterMap]
  congr 1
  funext item
  cases item <;> rfl

section Completed

variable {sig : Signature} {ty : TypeDef} {c : CtorDef} {m : MatchExpr}

/-- The arm that is added for a missing case resolves to this case. -/
theorem MatchExpr.resolve_of_mem_missing (hsig : sig.Distinct)
    (h : sig.scrutinee m.scrutinee = .ok (ty, c)) {s : Shape} (hs : s ∈ m.missing sig) :
    sig.resolve ty s.arm.pattern = .ok s := by
  rw [missing_of_scrutinee h] at hs
  exact (Shape.fits_of_mem_missing hs).resolve_pattern hsig (Signature.mem_of_scrutinee h).1

/-- Arms that are written for shapes resolve to these shapes, in their order. -/
theorem Signature.shapes_resolvedArms_map_arm {ws : List Shape}
    (h : ∀ s ∈ ws, sig.resolve ty s.arm.pattern = .ok s) :
    (sig.resolvedArms ty (ws.map Shape.arm)).map (·.2) = ws := by
  induction ws with
  | nil => rfl
  | cons s ws ih =>
    obtain ⟨hs, hws⟩ := List.forall_mem_cons.mp h
    rw [List.map_cons, resolvedArms_cons_of_ok hs, List.map_cons, ih hws]

theorem Signature.armErrors_map_arm {ws : List Shape}
    (h : ∀ s ∈ ws, sig.resolve ty s.arm.pattern = .ok s) :
    sig.armErrors ty (ws.map Shape.arm) = [] := by
  refine List.filterMap_eq_nil_iff.mpr fun a ha => ?_
  obtain ⟨s, hs, rfl⟩ := List.mem_map.mp ha
  rw [h s hs]

/-- **A completed match misses nothing.** -/
theorem MatchExpr.missing_completed (hsig : sig.Distinct) : (m.completed sig).missing sig = [] := by
  cases hscrutinee : sig.scrutinee m.scrutinee with
  | error e => simp only [missing, completed, hscrutinee]
  | ok found =>
    obtain ⟨ty, c⟩ := found
    -- the added arms are resolved to the very cases that were missing
    have hadded := Signature.shapes_resolvedArms_map_arm fun s =>
      resolve_of_mem_missing (s := s) hsig hscrutinee
    have hshapes : (sig.resolvedArms ty (m.completed sig).arms).map (·.2) =
        (sig.resolvedArms ty m.arms).map (·.2) ++ m.missing sig := by
      rw [completed, Signature.resolvedArms, List.filterMap_append, List.map_append]
      exact congrArg _ hadded
    have hcompleted : sig.scrutinee (m.completed sig).scrutinee = .ok (ty, c) := hscrutinee
    rw [missing_of_scrutinee hcompleted, hshapes, missing_of_scrutinee hscrutinee,
      Shape.missing_append_missing hsig (Signature.mem_of_scrutinee hscrutinee).1]

/-- What does not fit in a completed match is what did not fit before. -/
theorem MatchExpr.errors_completed (hsig : sig.Distinct) :
    (sig.resolveMatch (m.completed sig)).2 = (sig.resolveMatch m).2 := by
  unfold Signature.resolveMatch
  rw [scrutinee_completed]
  cases hscrutinee : sig.scrutinee m.scrutinee with
  | error e => rfl
  | ok found =>
    obtain ⟨ty, c⟩ := found
    -- the added arms fit, so nothing is reported of them
    have hadded := Signature.armErrors_map_arm fun s =>
      resolve_of_mem_missing (s := s) hsig hscrutinee
    have harms : sig.armErrors ty (m.completed sig).arms = sig.armErrors ty m.arms := by
      rw [completed, Signature.armErrors, List.filterMap_append]
      exact (congrArg _ hadded).trans (List.append_nil _)
    simp only [harms]

end Completed

/-! ### The repaired trees -/

section Repaired

variable {sig : Signature}

/-- Where no arm is removed all arms stay. -/
theorem MatchTree.snd_remaining_marks (m : MatchTree) (adds : Bool) :
    (ArmTree.remaining (m.marks sig ⟨false, adds⟩)).2 = m.arms := by
  have hkept : ∀ x ∈ m.marks sig ⟨false, adds⟩, x.2 = false := by
    unfold marks
    split <;> exact List.forall_mem_map.mpr fun _ _ => rfl
  rw [ArmTree.remaining_of_forall hkept, m.map_fst_marks]

/-- The tree of a repaired match stands for the completed match. -/
theorem MatchTree.expr_repaired (m : MatchTree) :
    (m.repaired sig ⟨false, true⟩).expr = m.expr.completed sig := by
  -- nothing is removed, so that the new arms follow the old ones
  have hadded : ((m.expr.missing sig).map Shape.armTree).map ArmTree.arm =
      (m.expr.missing sig).map Shape.arm := by
    rw [List.map_map]
    exact List.map_congr_left fun s _ => s.arm_armTree
  have harms : (m.repaired sig ⟨false, true⟩).arms.map ArmTree.arm =
      (m.expr.completed sig).arms := by
    rw [repaired, snd_remaining_marks, List.map_append]
    exact congrArg _ hadded
  exact congrArg (fun arms => { m.expr with arms := arms }) harms

/-- The tree of a repaired item stands for the completed item. -/
theorem ItemTree.item_repaired (i : ItemTree) :
    (i.repaired sig ⟨false, true⟩).item = i.item.completed sig := by
  cases i with
  | enumDecl e => rfl
  | matchExpr m => exact congrArg Item.matchExpr m.expr_repaired

end Repaired

/-! ### Declarations -/

/-- Each name of a constructor stands at a leaf of its tree. -/
theorem CtorTree.exists_leaf_of_mem_names {c : CtorTree} {x : Ident}
    (h : x ∈ c.decl.name :: c.decl.field.toList) : ∃ l ∈ c.leaves, l.span = x.span := by
  -- no parentheses, empty ones, or a field in them
  obtain ⟨name, _ | ⟨opening, _ | ⟨type, comma?⟩, closing⟩⟩ := c
  · obtain rfl := List.mem_singleton.mp h
    exact ⟨name.leaf, List.mem_cons_self, rfl⟩
  · obtain rfl := List.mem_singleton.mp h
    exact ⟨name.leaf, List.mem_cons_self, rfl⟩
  · rcases List.mem_cons.mp h with rfl | h
    · exact ⟨name.leaf, List.mem_cons_self, rfl⟩
    · obtain rfl := List.mem_singleton.mp h
      exact ⟨type.leaf, by simp [leaves, FieldTree.leaves, FieldTree.inside], rfl⟩

/-- Each name of a declaration stands at a leaf of its tree. -/
theorem EnumTree.exists_leaf_of_mem_names {e : EnumTree} {x : Ident} (h : x ∈ e.decl.names) :
    ∃ l ∈ e.leaves, l.span = x.span := by
  -- its own name, or one of a constructor
  rcases List.mem_cons.mp h with rfl | h
  · exact ⟨e.name.leaf, by simp [leaves], rfl⟩
  · obtain ⟨c, hc, hx⟩ := List.mem_flatMap.mp h
    obtain ⟨⟨tree, comma?⟩, htree, rfl⟩ := List.mem_map.mp hc
    obtain ⟨l, hl, hspan⟩ := CtorTree.exists_leaf_of_mem_names hx
    have hround : l ∈ ctorLeaves e.ctors :=
      List.mem_flatMap.mpr ⟨_, htree, List.mem_append_left _ hl⟩
    exact ⟨l, by simp [leaves, hround], hspan⟩

/-- Whether an item is a declaration. -/
def ItemTree.isDecl : ItemTree → Bool
  | enumDecl _ => true
  | matchExpr _ => false

section Declarations

open ItemTree

variable (items : List ItemTree)

/-- Moving items keeps which of them are declarations. -/
theorem ItemTree.filter_isDecl_map_move (g : Span → Span) :
    (items.map (move g)).filter isDecl = (items.filter isDecl).map (move g) := by
  rw [List.filter_map]
  congr 2
  funext i
  cases i <;> rfl

/-- A repair leaves declarations as they are. -/
theorem ItemTree.filter_isDecl_map_repaired (sig : Signature) (repair : Repair) :
    (items.map (repaired sig repair)).filter isDecl = items.filter isDecl := by
  induction items with
  | nil => rfl
  | cons i items ih =>
    cases i with
    | enumDecl e => exact congrArg (List.cons (.enumDecl e)) ih
    | matchExpr m => exact ih

/-- The declarations of a program are those of its declaring items. -/
theorem ItemTree.enumDecls_filter_isDecl :
    Program.enumDecls ⟨(items.filter isDecl).map item⟩ = Program.enumDecls ⟨items.map item⟩ := by
  induction items with
  | nil => rfl
  | cons i items ih =>
    cases i with
    | enumDecl e => exact congrArg (List.cons e.decl) ih
    | matchExpr m => exact ih

variable {items}

/-- Trees of one outline are reported alike for their declarations. -/
theorem ItemTree.report_declFindings_eq {items' : List ItemTree}
    (hold : Leaf.Ascending (items.flatMap leaves)) (hnew : Leaf.Ascending (items'.flatMap leaves))
    (h : items.map (move .forget) = items'.map (move .forget)) :
    (Program.declFindings ⟨items'.map item⟩).map Diagnostic.report =
      (Program.declFindings ⟨items.map item⟩).map Diagnostic.report := by
  obtain ⟨g, hmove, horder⟩ := ItemTree.exists_move hold hnew h
  -- findings are placed at names, and names are leaves, whose order `g` keeps
  have hnames : ∀ x ∈ (Program.enumDecls ⟨items.map item⟩).flatMap EnumDecl.names,
      ∃ l ∈ items.flatMap leaves, l.span = x.span := by
    intro x hx
    obtain ⟨decl, hdecl, hx⟩ := List.mem_flatMap.mp hx
    obtain ⟨e, he, rfl⟩ := exists_enumTree hdecl
    obtain ⟨l, hl, hspan⟩ := EnumTree.exists_leaf_of_mem_names hx
    exact ⟨l, List.mem_flatMap.mpr ⟨_, he, hl⟩, hspan⟩
  calc (Program.declFindings ⟨items'.map item⟩).map Diagnostic.report
    _ = (Program.declFindings (Program.move id ⟨items'.map item⟩)).map Diagnostic.report :=
      (Program.report_declFindings_move id fun _ _ _ _ => Iff.rfl).symm
    _ = (Program.declFindings (Program.move g ⟨items.map item⟩)).map Diagnostic.report := by
      rw [← move_program g, hmove, move_program id]
    _ = (Program.declFindings ⟨items.map item⟩).map Diagnostic.report := by
      refine Program.report_declFindings_move g fun a ha b hb => ?_
      obtain ⟨l, hl, hla⟩ := hnames a ha
      obtain ⟨m, hm, hmb⟩ := hnames b hb
      rw [← hla, ← hmb]
      exact horder l hl m hm

/-- The leaves of declarations ascend, as all leaves of a source do. -/
theorem Derivation.ascending_decls {ls : List Leaf} (d : Derivation ls) (h : Leaf.Lined ls) :
    Leaf.Ascending ((d.items.filter isDecl).flatMap leaves) := by
  have hsublist : ((d.items.filter isDecl).flatMap leaves).Sublist (d.items.flatMap leaves) :=
    List.filter_sublist.flatMap leaves
  rw [d.leaves_eq] at hsublist
  exact h.ascending.sublist hsublist

end Declarations

namespace Source

variable {source : Source} (options : CheckOptions) (only? : Option (List String))

/-- **Fixes leave the reports about declarations as they are.** -/
theorem report_declFindings_fix (d : Derivation source.leaves)
    (d' : Derivation (source.fix options only?).leaves) :
    d'.program.declFindings.map Diagnostic.report =
      d.program.declFindings.map Diagnostic.report := by
  have hstrip : (d.items.filter ItemTree.isDecl).map (ItemTree.move .forget) =
      (d'.items.filter ItemTree.isDecl).map (ItemTree.move .forget) := by
    -- only the declarations are compared: the matches have new arms
    rw [← ItemTree.filter_isDecl_map_move _ _, ← ItemTree.filter_isDecl_map_move d'.items,
      d'.map_strip_items (map_strip_leaves_fix options only? d), ItemTree.filter_isDecl_map_move,
      ItemTree.filter_isDecl_map_move, ItemTree.filter_isDecl_map_repaired]
  have hreport := ItemTree.report_declFindings_eq (d.ascending_decls source.lined_leaves)
    (d'.ascending_decls (source.fix options only?).lined_leaves) hstrip
  rwa [Program.declFindings_congr (ItemTree.enumDecls_filter_isDecl d'.items),
    Program.declFindings_congr (ItemTree.enumDecls_filter_isDecl d.items)] at hreport

end Source

/-! ### Reports about matches -/

theorem DeclError.code_ne (e : DeclError) : e.report.1 ≠ Code.nonExhaustiveMatch.text := by
  cases e <;>
    simp [report, Diagnostic.report, diagnostic, Diagnostic.error, Diagnostic.addNote, Code.text]

theorem MatchError.code_ne (e : MatchError) : e.report.1 ≠ Code.nonExhaustiveMatch.text := by
  cases e <;>
    simp [report, Diagnostic.report, diagnostic, Diagnostic.error, Diagnostic.addNote, Code.text]

namespace Program

variable (n : Nat) (p : Program)

/-- What is reported about the matches of a program, without warnings. -/
def matchReports : List (String × String) :=
  p.matchExprs.flatMap fun m => (m.check p.signature ⟨.allow, n⟩).map Diagnostic.report

/-- What is reported about the matches of a program besides missing cases. -/
def errorReports : List (String × String) :=
  p.matchExprs.flatMap fun m => (p.signature.resolveMatch m).2.map MatchError.report

/-- Declarations are reported first, then matches. -/
theorem map_report_check :
    (p.check ⟨.allow, n⟩).map Diagnostic.report =
      p.declFindings.map Diagnostic.report ++ p.matchReports n := by
  rw [check, List.map_append, List.map_flatMap]
  rfl

/-- What is reported about matches does not depend on places. -/
theorem matchReports_move (g : Span → Span) : (p.move g).matchReports n = p.matchReports n := by
  simp only [matchReports, matchExprs_move, signature_move, List.flatMap_map,
    MatchExpr.report_check_move]

/-- Of a completed program nothing is reported as missing. -/
theorem matchReports_completed : p.completed.matchReports n = p.errorReports := by
  simp only [matchReports, errorReports, matchExprs_completed, signature_completed,
    List.flatMap_map, MatchExpr.map_report_check,
    MatchExpr.missing_completed p.signature_distinct,
    MatchExpr.errors_completed p.signature_distinct, MatchExpr.missingReport, List.append_nil]

/-- Without missing cases, what is reported about matches are their misfits. -/
theorem filter_matchReports :
    (p.matchReports n).filter (fun x => x.1 ≠ Code.nonExhaustiveMatch.text) = p.errorReports := by
  rw [matchReports, List.filter_flatMap]
  -- match by match: the misfits stay, and what is missing goes
  refine List.flatMap_congr fun m _ => ?_
  have herrors : ∀ x ∈ (p.signature.resolveMatch m).2.map MatchError.report,
      decide (x.1 ≠ Code.nonExhaustiveMatch.text) = true :=
    List.forall_mem_map.mpr fun e _ => decide_eq_true e.code_ne
  have hmissing : (MatchExpr.missingReport n (m.missing p.signature)).filter
      (fun x => x.1 ≠ Code.nonExhaustiveMatch.text) = [] := by
    unfold MatchExpr.missingReport
    split <;> simp
  rw [MatchExpr.map_report_check, List.filter_append, hmissing, List.filter_eq_self.mpr herrors,
    List.append_nil]

/-- The reports about declarations stay. -/
theorem filter_report_declFindings :
    (p.declFindings.map Diagnostic.report).filter
        (fun x => x.1 ≠ Code.nonExhaustiveMatch.text) =
      p.declFindings.map Diagnostic.report := by
  refine List.filter_eq_self.mpr (List.forall_mem_map.mpr fun x hx => ?_)
  obtain ⟨e, -, rfl⟩ := List.mem_map.mp (List.mem_mergeSort.mp hx)
  exact decide_eq_true e.code_ne

/-- The reports of a program that are not about missing cases. -/
theorem map_report_filter_check :
    ((p.check ⟨.allow, n⟩).filter fun x => x.code ≠ Code.nonExhaustiveMatch.text).map
        Diagnostic.report =
      p.declFindings.map Diagnostic.report ++ p.errorReports := by
  rw [← filter_report_declFindings, ← p.filter_matchReports n, ← List.filter_append,
    ← map_report_check, List.filter_map]
  rfl

variable {p} {q : Program}

/-- A program that is a completed one, up to places, misses nothing. -/
theorem missing_eq_nil_of_erase_eq (h : q.erase = p.completed.erase) {m : MatchExpr}
    (hm : m ∈ q.matchExprs) : m.missing q.signature = [] := by
  -- both signatures are the same without their places, and what is missing depends on nothing else
  have hsig : q.signature.move .forget = p.signature.move .forget := by
    have := congrArg signature h
    rwa [erase, erase, signature_move, signature_move, signature_completed] at this
  have hmem : m.move .forget ∈ p.completed.erase.matchExprs := by
    rw [← h, erase, matchExprs_move]
    exact List.mem_map_of_mem hm
  rw [erase, matchExprs_move, matchExprs_completed] at hmem
  obtain ⟨_, hmem, hmove⟩ := List.mem_map.mp hmem
  obtain ⟨m', -, rfl⟩ := List.mem_map.mp hmem
  rw [← MatchExpr.missing_move .forget, ← hmove, hsig, MatchExpr.missing_move,
    MatchExpr.missing_completed p.signature_distinct]

end Program

/-! ### One pass -/

/-- Without edits a text stays as it is. -/
theorem Fixed.text_ofFindings_of_edits_eq_nil {text : List Char} {ds : List Diagnostic}
    {only? : Option (List String)} (h : edits only? ds = []) :
    (ofFindings text ds only?).text = text := by
  rw [ofFindings, h, List.mergeSort_nil]
  rfl

/-- Without warnings, the findings about a program that misses nothing suggest nothing. -/
theorem Program.edits_check_eq_nil {p : Program} {n : Nat} {only? : Option (List String)}
    (h : ∀ m ∈ p.matchExprs, m.missing p.signature = []) :
    Fixed.edits only? (p.check ⟨.allow, n⟩) = [] := by
  refine List.Perm.eq_nil ((p.edits_check_perm ⟨.allow, n⟩ only?).trans (.of_eq ?_))
  refine List.flatMap_eq_nil_iff.mpr fun m hm => ?_
  -- no arm is removed, since warnings are off, and none is to be added
  have hadded : m.added p.signature (CheckOptions.repair ⟨.allow, n⟩ only?) = [] := by
    rw [MatchExpr.added, h m hm, ite_self]
  rw [MatchExpr.repairEdits, hadded]
  rfl

/-- Where no arm is removed and no missing case nests too deep, a repair is safe. -/
theorem MatchTree.mendable_of_nesting {sig : Signature} {m : MatchTree}
    (hvalid : (ItemTree.matchExpr m).Valid)
    (hnesting : ∀ s ∈ m.expr.missing sig, s.depth ≤ maxNesting) :
    m.Mendable sig ⟨false, true⟩ where
  commas a ha := by
    rw [snd_remaining_marks] at ha
    exact (hvalid.2 a ha).2
  nesting := hnesting

namespace Source

variable {source : Source} (n : Nat)

/-- A source whose missing cases do not nest too deep can be read after its fixes. -/
theorem nonempty_derivation_fix (d : Derivation source.leaves)
    (hnesting : ∀ m ∈ d.program.matchExprs, ∀ s ∈ m.missing d.program.signature,
      s.depth ≤ maxNesting) :
    Nonempty (Derivation (source.fix ⟨.allow, n⟩ none).leaves) := by
  rw [← program_snd_eq_nil_iff, syntaxErrors_fix_iff ⟨.allow, n⟩ none d,
    d.forall_valid_repaired_iff]
  intro m hm
  -- what was read without errors is still read, unless a new arm nests too deep
  have hexpr : m.expr ∈ d.program.matchExprs :=
    List.mem_filterMap.mpr ⟨.matchExpr m.expr, List.mem_map_of_mem hm, rfl⟩
  exact MatchTree.mendable_of_nesting (d.valid _ hm) (hnesting m.expr hexpr)

/-- A source that can be read after its fixes then holds the completed program, up to places. -/
theorem erase_program_fix_allow (d : Derivation source.leaves)
    (d' : Derivation (source.fix ⟨.allow, n⟩ none).leaves) :
    d'.program.erase = d.program.completed.erase := by
  -- a repaired item is the completed one, if nothing is removed
  have hitems : (d.items.map (ItemTree.repaired d.program.signature ⟨false, true⟩)).map
      ItemTree.item = d.program.completed.items := by
    rw [Program.completed, Derivation.program, List.map_map, List.map_map]
    exact List.map_congr_left fun i _ => i.item_repaired
  rw [erase_program_fix ⟨.allow, n⟩ none d d']
  exact congrArg (fun items => Program.erase ⟨items⟩) hitems

/-- What is reported about it is what was reported before, besides missing cases. -/
theorem report_check_fix (d : Derivation source.leaves)
    (d' : Derivation (source.fix ⟨.allow, n⟩ none).leaves) :
    ((source.fix ⟨.allow, n⟩ none).check ⟨.allow, n⟩).map Diagnostic.report =
      ((source.check ⟨.allow, n⟩).filter fun x => x.code ≠ Code.nonExhaustiveMatch.text).map
        Diagnostic.report := by
  -- the fixed program is the completed one, but for places, and reports do not depend on these
  have hmatches : d'.program.matchReports n = d.program.errorReports :=
    calc d'.program.matchReports n
      _ = d'.program.erase.matchReports n := (d'.program.matchReports_move n .forget).symm
      _ = d.program.completed.erase.matchReports n := by rw [erase_program_fix_allow n d d']
      _ = d.program.completed.matchReports n := d.program.completed.matchReports_move n .forget
      _ = d.program.errorReports := d.program.matchReports_completed n
  rw [check_eq_of_derivation _ d, check_eq_of_derivation _ d', Program.map_report_filter_check,
    Program.map_report_check, report_declFindings_fix _ _ d d', hmatches]

/-- There is nothing left to fix in it. -/
theorem fix_fix (d : Derivation source.leaves)
    (d' : Derivation (source.fix ⟨.allow, n⟩ none).leaves) :
    (source.fix ⟨.allow, n⟩ none).fix ⟨.allow, n⟩ none = source.fix ⟨.allow, n⟩ none := by
  have hedits : Fixed.edits none ((source.fix ⟨.allow, n⟩ none).check ⟨.allow, n⟩) = [] := by
    rw [check_eq_of_derivation _ d']
    exact Program.edits_check_eq_nil fun m hm =>
      Program.missing_eq_nil_of_erase_eq (erase_program_fix_allow n d d') hm
  exact congrArg (Source.mk source.path) (Fixed.text_ofFindings_of_edits_eq_nil hedits)

/-- **Fixes complete matches in one pass.** Of a source without findings about its syntax, and whose
missing cases nest no deeper than patterns may, the fixed text is read without errors as the
completed program. No match misses a case then, everything else is reported as before, and there is
nothing left to fix. -/
theorem fix_completes (source : Source) (n : Nat)
    (hread : ∀ x ∈ source.check ⟨.allow, n⟩, Run.isSyntaxCode x.code = false)
    (hnesting : ∀ m ∈ source.program.1.matchExprs, ∀ s ∈ m.missing source.program.1.signature,
      s.depth ≤ maxNesting) :
    let fixed := source.fix ⟨.allow, n⟩ none
    fixed.program.2 = [] ∧
      fixed.program.1.erase = source.program.1.completed.erase ∧
      (∀ x ∈ fixed.check ⟨.allow, n⟩, x.code ≠ Code.nonExhaustiveMatch.text) ∧
      (fixed.check ⟨.allow, n⟩).map Diagnostic.report =
        ((source.check ⟨.allow, n⟩).filter fun x => x.code ≠ Code.nonExhaustiveMatch.text).map
          Diagnostic.report ∧
      fixed.fix ⟨.allow, n⟩ none = fixed := by
  intro fixed
  rw [forall_isSyntaxCode_iff, program_snd_eq_nil_iff] at hread
  obtain ⟨d⟩ := hread
  rw [source.program_eq_iff.mpr ⟨d, rfl⟩] at hnesting ⊢
  obtain ⟨d'⟩ := nonempty_derivation_fix n d hnesting
  have hprogram : fixed.program = (d'.program, []) := fixed.program_eq_iff.mpr ⟨d', rfl⟩
  have hreport := report_check_fix n d d'
  -- the codes are part of the reports
  have hexhaustive : ∀ x ∈ fixed.check ⟨.allow, n⟩, x.code ≠ Code.nonExhaustiveMatch.text := by
    intro x hx
    have hmem : x.report ∈ (fixed.check ⟨.allow, n⟩).map Diagnostic.report :=
      List.mem_map_of_mem hx
    rw [hreport] at hmem
    obtain ⟨y, hy, hxy⟩ := List.mem_map.mp hmem
    have hcode : y.code = x.code := congrArg Prod.fst hxy
    rw [← hcode]
    exact of_decide_eq_true (List.mem_filter.mp hy).2
  rw [hprogram]
  exact ⟨rfl, erase_program_fix_allow n d d', hexhaustive, hreport, fix_fix n d d'⟩

end Source

/-- A source with a type that is declared twice and a match with an arm that does not fit. -/
def halfway : Source :=
  .ofString "nat.pmxc" <|
    "enum Nat \x7b Zero, Succ(Nat) \x7d\nenum Nat \x7b Zero \x7d\n" ++
    "match Succ(Zero) \x7b Succ(Zero) => \x7b\x7d Odd => \x7b\x7d \x7d\n"

/-- It gets arms for both missing cases, of which the message lists one, and its other two findings
stay. -/
theorem halfway_fix_completes :
    (halfway.check ⟨.allow, 1⟩).map (·.code) = ["E1011", "E1016", "E1004"] ∧
      (∀ x ∈ halfway.check ⟨.allow, 1⟩, Run.isSyntaxCode x.code = false) ∧
      (∀ m ∈ halfway.program.1.matchExprs, ∀ s ∈ m.missing halfway.program.1.signature,
        s.depth ≤ maxNesting) ∧
      (halfway.fix ⟨.allow, 1⟩ none).program.1.erase = halfway.program.1.completed.erase ∧
      ((halfway.fix ⟨.allow, 1⟩ none).check ⟨.allow, 1⟩).map Diagnostic.report =
        [("E1011", "Type `Nat` is declared more than once"),
          ("E1016", "Unknown constructor `Odd`")] := by
  have heval : (halfway.check ⟨.allow, 1⟩).map (·.code) = ["E1011", "E1016", "E1004"] ∧
      (∀ x ∈ halfway.check ⟨.allow, 1⟩, Run.isSyntaxCode x.code = false) ∧
      (∀ m ∈ halfway.program.1.matchExprs, ∀ s ∈ m.missing halfway.program.1.signature,
        s.depth ≤ maxNesting) ∧
      ((halfway.check ⟨.allow, 1⟩).filter fun x => x.code ≠ Code.nonExhaustiveMatch.text).map
          Diagnostic.report =
        [("E1011", "Type `Nat` is declared more than once"),
          ("E1016", "Unknown constructor `Odd`")] := by
    decide +kernel
  obtain ⟨hcodes, hread, hnesting, hothers⟩ := heval
  obtain ⟨-, hprogram, -, hreport, -⟩ := Source.fix_completes halfway 1 hread hnesting
  exact ⟨hcodes, hread, hnesting, hprogram, hreport.trans hothers⟩

end MatchCheck
