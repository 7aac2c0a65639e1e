import Mathlib.Data.List.Sort
import MatchCheck.Diagnostic.Basic

/-!
# Findings in the order of their starts

Sorting orders findings by the offset at which they begin, and findings that begin at one offset
keep their order. So what already stands in order stays so among whatever is added to it
(`sublist_sortByStart`), and can be taken out again unchanged (`filter_sortByStart_append`).

If no two findings begin at one offset, only one order is possible: how the findings were collected
does not matter then (`eq_of_perm`).
-/

namespace MatchCheck.Diagnostic

/-- The first finding begins no later than the second. -/
def StartsLE (d e : Diagnostic) : Prop :=
  d.span.start.offset ≤ e.span.start.offset

/-- The first finding begins before the second. -/
def StartsLT (d e : Diagnostic) : Prop :=
  d.span.start.offset < e.span.start.offset

variable {d e : Diagnostic} {ds es : List Diagnostic}

theorem StartsLT.le (h : d.StartsLT e) : d.StartsLE e :=
  Nat.le_of_lt h

theorem sortByStart_perm (ds : List Diagnostic) : (sortByStart ds).Perm ds :=
  List.mergeSort_perm ds _

theorem startsLE_trans (a b c : Diagnostic)
    (hab : decide (a.span.start.offset ≤ b.span.start.offset))
    (hbc : decide (b.span.start.offset ≤ c.span.start.offset)) :
    decide (a.span.start.offset ≤ c.span.start.offset) :=
  decide_eq_true (Nat.le_trans (of_decide_eq_true hab) (of_decide_eq_true hbc))

theorem startsLE_total (a b : Diagnostic) :
    (decide (a.span.start.offset ≤ b.span.start.offset) ||
      decide (b.span.start.offset ≤ a.span.start.offset)) = true := by
  rw [Bool.or_eq_true, decide_eq_true_eq, decide_eq_true_eq]
  exact Nat.le_total _ _

/-- What is sorted stands in the order of the starts. -/
theorem pairwise_sortByStart (ds : List Diagnostic) : (sortByStart ds).Pairwise StartsLE :=
  (List.pairwise_mergeSort startsLE_trans startsLE_total ds).imp of_decide_eq_true

/-- Findings in order stay in order among others. -/
theorem sublist_sortByStart (h : ds.Pairwise StartsLE) (hsub : ds.Sublist es) :
    ds.Sublist (sortByStart es) := by
  have hds : ds.Pairwise fun d e => decide (d.span.start.offset ≤ e.span.start.offset) = true :=
    h.imp fun hle => decide_eq_true_iff.mpr (show _ ≤ _ from hle)
  -- sorting is stable, which keeps what is in order already
  exact List.sublist_mergeSort startsLE_trans startsLE_total hds hsub

/-- Findings in order that are told apart from those added to them are found again. -/
theorem filter_sortByStart_append {keep : Diagnostic → Bool} (hsorted : ds.Pairwise StartsLE)
    (hds : ∀ d ∈ ds, keep d = true) (hes : ∀ e ∈ es, keep e = false) :
    (sortByStart (ds ++ es)).filter keep = ds := by
  have hkept : (ds ++ es).filter keep = ds := by
    rw [List.filter_append, List.filter_eq_self.mpr hds,
      List.filter_eq_nil_iff.mpr fun e he => by simp [hes e he], List.append_nil]
  have hsub : ds.Sublist ((sortByStart (ds ++ es)).filter keep) := by
    have := (sublist_sortByStart hsorted (List.sublist_append_left ds es)).filter keep
    rwa [List.filter_eq_self.mpr hds] at this
  -- nothing else is kept, since there are as many as before the sorting
  refine (hsub.eq_of_length ?_).symm
  rw [((sortByStart_perm (ds ++ es)).filter keep).length_eq, hkept]

/-- Findings that keep their starts are sorted alike. -/
theorem sortByStart_map {f : Diagnostic → Diagnostic}
    (hf : ∀ d, (f d).span.start.offset = d.span.start.offset) (ds : List Diagnostic) :
    sortByStart (ds.map f) = (sortByStart ds).map f := by
  refine (List.map_mergeSort fun d _ e _ => ?_).symm
  rw [hf, hf]

/-- Without two starts alike, each finding begins before the next. -/
theorem pairwise_lt_of_nodup (h : ds.Pairwise StartsLE)
    (hnodup : (ds.map (·.span.start.offset)).Nodup) : ds.Pairwise StartsLT :=
  (h.and (List.pairwise_map.mp hnodup)).imp fun ⟨hle, hne⟩ => Nat.lt_of_le_of_ne hle hne

/-- **Only one order is possible** for findings that begin at different offsets. -/
theorem eq_of_perm (hperm : ds.Perm es) (hds : ds.Pairwise StartsLE) (hes : es.Pairwise StartsLE)
    (hnodup : (es.map (·.span.start.offset)).Nodup) : ds = es := by
  -- two findings that may stand either way begin at one offset, and so are one
  refine hperm.eq_of_pairwise (fun a b ha hb hab hba => ?_) hds hes
  exact List.inj_on_of_nodup_map hnodup (hperm.subset ha) hb (Nat.le_antisymm hab hba)

end MatchCheck.Diagnostic
