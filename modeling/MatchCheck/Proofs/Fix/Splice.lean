import Mathlib.Data.List.Nodup
import MatchCheck.Fix.Basic

/-!
# Edits made at once

Edits are made one after the other from the end of a text towards its front. `Spliced` says what
they do together: it goes through the text from its front and replaces one stretch after the other.
The offsets of the edits are those of the text before any edit, and stay right because an edit
moves only what stands behind it.
-/

namespace MatchCheck

/-- A text is cut behind its front. -/
theorem Text.cut?_append (front rest : List Char) :
    Text.cut? (Text.byteLength front) (front ++ rest) = some (front, rest) := by
  -- character by character: a cut counts bytes down, and each character has some
  induction front with
  | nil => cases rest <;> rfl
  | cons c front ih =>
    have hpos := c.utf8Size_pos
    rw [Text.byteLength_cons, List.cons_append, Text.cut?, if_neg (by omega), if_neg (by omega),
      Nat.add_sub_cancel_left, ih]
    rfl

/-- Edits of a text that begins at `offset`, in the order of their places, and what they make of it.
-/
inductive Spliced : Nat → List Edit → List Char → List Char → Prop
  | done (offset : Nat) (text : List Char) : Spliced offset [] text text
  | edit {offset : Nat} {e : Edit} {es : List Edit} {front gone behind behind' : List Char}
      (hstart : e.span.start.offset = offset + Text.byteLength front)
      (hstop : e.span.stop.offset = e.span.start.offset + Text.byteLength gone)
      (h : Spliced e.span.stop.offset es behind behind') :
      Spliced offset (e :: es) (front ++ (gone ++ behind))
        (front ++ (e.replacement.toList ++ behind'))

namespace Spliced

variable {offset : Nat} {es : List Edit} {text text' : List Char}

/-- Text in front of all edits stays. -/
theorem keep (front : List Char) (h : Spliced (offset + Text.byteLength front) es text text') :
    Spliced offset es (front ++ text) (front ++ text') := by
  -- the first edit is made behind the text in front as well
  cases h with
  | done => exact .done _ _
  | @edit _ e es mid gone behind behind' hstart hstop h =>
    rw [← List.append_assoc front mid, ← List.append_assoc front mid]
    refine .edit ?_ hstop h
    rw [hstart, Text.byteLength_append]
    omega

/-- An edit is made if it lies in front of the limit. -/
theorem splice?_eq {e : Edit} {limit : Nat} {front gone behind : List Char}
    (hstart : e.span.start.offset = Text.byteLength front)
    (hstop : e.span.stop.offset = e.span.start.offset + Text.byteLength gone)
    (hlimit : e.span.stop.offset ≤ limit) :
    e.splice? limit (front ++ (gone ++ behind)) =
      some (front ++ e.replacement.toList ++ behind) := by
  have hlength : e.span.stop.offset - e.span.start.offset = Text.byteLength gone := by omega
  rw [Edit.splice?, if_neg (by simp; omega), hlength, hstart, Text.cut?_append]
  simp [Text.cut?_append]

/-- **One after the other.** From the end towards the front, edits make of a text what they make of
it at once. -/
theorem applyAll_reverse (h : Spliced offset es text text') {before : List Char}
    (hbefore : Text.byteLength before = offset) {limit : Nat}
    (hlimit : Text.byteLength (before ++ text) ≤ limit) (count : Nat) (more : List Edit) :
    ∃ limit', offset ≤ limit' ∧
      Fixed.applyAll limit ⟨before ++ text, count⟩ (es.reverse ++ more) =
        Fixed.applyAll limit' ⟨before ++ text', count + es.length⟩ more := by
  -- along the edits from the front, while they are made from the end: the last of them is made in
  -- the middle of the proof
  induction h generalizing before count more with
  | done =>
    rw [Text.byteLength_append] at hlimit
    exact ⟨limit, by omega, by simp⟩
  | @edit offset e es front gone behind behind' hstart hstop _ ih =>
    have hlength : Text.byteLength (before ++ (front ++ gone)) = e.span.stop.offset := by
      simp only [Text.byteLength_append]
      omega
    have htext : before ++ (front ++ (gone ++ behind)) = before ++ (front ++ gone) ++ behind := by
      simp
    rw [htext] at hlimit ⊢
    -- the edits behind this one are made first, and leave what stands in front of them as it is
    obtain ⟨limit', hle, heq⟩ := ih hlength hlimit count (e :: more)
    refine ⟨e.span.start.offset, by omega, ?_⟩
    have hsplice : e.splice? limit' ((before ++ front) ++ (gone ++ behind')) =
        some (before ++ front ++ e.replacement.toList ++ behind') :=
      splice?_eq (by rw [Text.byteLength_append]; omega) hstop hle
    have htext' :
        before ++ (front ++ gone) ++ behind' = (before ++ front) ++ (gone ++ behind') := by
      simp
    have horder : (e :: es).reverse ++ more = es.reverse ++ e :: more := by simp
    rw [horder, heq, htext', Fixed.applyAll, hsplice]
    simp [Nat.add_assoc]

end Spliced

namespace Edit

/-- Edits that begin one behind the other. -/
def Ascending (es : List Edit) : Prop :=
  es.Pairwise fun e f => e.span.start.offset < f.span.start.offset

theorem comesFirst_trans (e f g : Edit) (hef : e.comesFirst f = true)
    (hfg : f.comesFirst g = true) : e.comesFirst g = true := by
  simp only [comesFirst, Bool.or_eq_true, decide_eq_true_eq, Bool.and_eq_true] at *
  omega

theorem comesFirst_total (e f : Edit) : (e.comesFirst f || f.comesFirst e) = true := by
  simp only [comesFirst, Bool.or_eq_true, decide_eq_true_eq, Bool.and_eq_true]
  omega

theorem Ascending.pairwise_comesFirst {es : List Edit} (h : Ascending es) :
    es.reverse.Pairwise (comesFirst · ·) := by
  rw [List.pairwise_reverse]
  exact h.imp fun {e f} hlt => by simp [comesFirst, hlt]

/-- Edits in whatever order are made from the last to the first. -/
theorem mergeSort_eq_reverse {es fs : List Edit} (h : Ascending es) (hperm : fs.Perm es) :
    fs.mergeSort comesFirst = es.reverse := by
  have hsorted := List.pairwise_mergeSort comesFirst_trans comesFirst_total fs
  have hsame : (fs.mergeSort comesFirst).Perm es.reverse :=
    (List.mergeSort_perm fs comesFirst).trans (hperm.trans (List.reverse_perm es).symm)
  refine hsame.eq_of_pairwise (fun e f he hf hef hfe => ?_) hsorted h.pairwise_comesFirst
  -- of two edits that each come first, neither begins before the other
  have hstart : e.span.start.offset = f.span.start.offset := by
    simp only [comesFirst, Bool.or_eq_true, decide_eq_true_eq, Bool.and_eq_true] at hef hfe
    omega
  have hnodup : (es.map fun e => e.span.start.offset).Nodup :=
    List.pairwise_map.mpr (h.imp fun hlt => Nat.ne_of_lt hlt)
  have hmem : e ∈ es := List.mem_reverse.mp (hsame.mem_iff.mp he)
  exact List.inj_on_of_nodup_map hnodup hmem (List.mem_reverse.mp hf) hstart

/-- Edits that begin at different offsets are all kept. -/
theorem dropRepeats_eq_self {es : List Edit}
    (h : es.Pairwise fun e f => e.span.start.offset ≠ f.span.start.offset) :
    dropRepeats es = es := by
  induction es with
  | nil => rfl
  | cons e es ih =>
    obtain ⟨he, hes⟩ := List.pairwise_cons.mp h
    rw [dropRepeats, ih hes]
    -- only neighbours are compared, and these begin at different offsets
    cases es with
    | nil => rfl
    | cons f es =>
      have hne := he f List.mem_cons_self
      simp [sameStretch, hne]

theorem dropRepeats_reverse {es : List Edit} (h : Ascending es) :
    dropRepeats es.reverse = es.reverse :=
  dropRepeats_eq_self (List.pairwise_reverse.mpr (h.imp fun hlt => Nat.ne_of_gt hlt))

end Edit

/-- **Edits are made at once.** Findings that suggest edits one behind the other, in whatever order,
make of a text what the edits make of it at once. -/
theorem Fixed.ofFindings_eq {text text' : List Char} {ds : List Diagnostic}
    {only? : Option (List String)} {es : List Edit} (hperm : (Fixed.edits only? ds).Perm es)
    (hascending : Edit.Ascending es) (h : Spliced 0 es text text') :
    Fixed.ofFindings text ds only? = ⟨text', es.length⟩ := by
  have hempty : Text.byteLength [] = 0 := rfl
  -- the whole text is behind its front, and no edit was made before
  obtain ⟨limit, -, heq⟩ := h.applyAll_reverse hempty (Nat.le_refl _) 0 []
  rw [Fixed.ofFindings, Edit.mergeSort_eq_reverse hascending hperm,
    Edit.dropRepeats_reverse hascending]
  simpa [Fixed.applyAll] using heq

end MatchCheck
