import MatchCheck.Proofs.Fix.Splice
import MatchCheck.Proofs.Fix.Suggested
import MatchCheck.Proofs.Token.Place

/-!
# Which edits are made

Edits may be suggested anywhere: past the end of a text, turned around, inside a character, over
each other, and more than once. Whatever is suggested, some of the edits are made at once and the
others are left out for a reason that can be told from the edits and the text alone
(`Fixed.edits_made_at_once`). An edit that is left out is not `Valid` for the text, or it overlaps
an edit that is made, or an edit is made for the same stretch.

The edits are gone through from the last to the first. In between, the text up to some offset is
still as it was, and from there on the edits made so far have been made at once (`Fixed.Partway`).
So whether an edit can be made is seen from the first text as well, although it is decided on a text
that has changed behind it.
-/

namespace MatchCheck

namespace Edit

/-- An edit is in order, and begins and ends between characters of a text. -/
structure Valid (text : List Char) (e : Edit) : Prop where
  ordered : e.span.start.offset ≤ e.span.stop.offset
  start_boundary : Text.Boundary text e.span.start.offset
  stop_boundary : Text.Boundary text e.span.stop.offset

/-- Each of two edits begins in front of the end of the other. -/
def Overlaps (e f : Edit) : Prop :=
  e.span.start.offset < f.span.stop.offset ∧ f.span.start.offset < e.span.stop.offset

/-- An edit ends before another one begins, or where it begins. -/
def InFront (e f : Edit) : Prop :=
  e.span.stop.offset ≤ f.span.start.offset

end Edit

/-! ### Texts that are cut in two places -/

/-- The earlier of two cuts of a text cuts its front part. -/
theorem Text.exists_mid {front back xs ys : List Char} (h : front ++ back = xs ++ ys)
    (hle : Text.byteLength xs ≤ Text.byteLength front) :
    ∃ mid, front = xs ++ mid ∧ ys = mid ++ back := by
  -- the longer front goes on behind the shorter one
  rcases List.append_eq_append_iff.mp h with ⟨more, rfl, rfl⟩ | ⟨mid, rfl, rfl⟩
  · have hnil : more = [] := by
      by_contra hne
      have hpos := Text.byteLength_pos hne
      rw [Text.byteLength_append] at hle
      omega
    subst hnil
    exact ⟨[], by simp, by simp⟩
  · exact ⟨mid, rfl, rfl⟩

/-- A stretch between two boundaries is cut out. -/
theorem Edit.Valid.exists_cut {text : List Char} {e : Edit} (h : e.Valid text) :
    ∃ front gone behind, text = front ++ (gone ++ behind) ∧
      e.span.start.offset = Text.byteLength front ∧
      e.span.stop.offset = e.span.start.offset + Text.byteLength gone := by
  obtain ⟨front, rest, htext, hstart⟩ := h.start_boundary
  obtain ⟨upto, behind, htext', hstop⟩ := h.stop_boundary
  -- both ends are cuts, the first one in front of the second
  have hle : Text.byteLength front ≤ Text.byteLength upto := by
    rw [hstart, hstop]
    exact h.ordered
  obtain ⟨gone, rfl, rfl⟩ := Text.exists_mid (htext'.symm.trans htext) hle
  rw [Text.byteLength_append] at hstop
  exact ⟨front, gone, behind, htext, hstart.symm, by omega⟩

theorem Edit.exists_cut_of_splice? {e : Edit} {limit : Nat} {text text' : List Char}
    (h : e.splice? limit text = some text') :
    ∃ front gone behind, text = front ++ (gone ++ behind) ∧
      e.span.start.offset = Text.byteLength front ∧
      e.span.stop.offset = e.span.start.offset + Text.byteLength gone ∧
      e.span.stop.offset ≤ limit ∧ text' = front ++ (e.replacement.toList ++ behind) := by
  unfold Edit.splice? at h
  split at h
  · cases h
  · next hguard =>
    -- the text is cut where the edit begins, and what is behind it where the edit ends
    obtain ⟨⟨front, rest⟩, hfront, h⟩ := Option.bind_eq_some_iff.mp h
    obtain ⟨⟨gone, behind⟩, hgone, h⟩ := Option.bind_eq_some_iff.mp h
    have hstart := Text.byteLength_of_cut? hfront
    have hlength := Text.byteLength_of_cut? hgone
    simp only [Bool.or_eq_true, decide_eq_true_eq, not_or] at hguard
    refine ⟨front, gone, behind, ?_, hstart.symm, by omega, by omega, ?_⟩
    · rw [Text.append_of_cut? hgone, Text.append_of_cut? hfront]
    · rw [← List.append_assoc]
      exact (Option.some.inj h).symm

/-! ### Edits that are made at once -/

namespace Spliced

variable {offset : Nat} {es : List Edit} {text text' : List Char}

theorem forall_offset_le (h : Spliced offset es text text') :
    ∀ e ∈ es, offset ≤ e.span.start.offset := by
  induction h with
  | done => exact List.forall_mem_nil _
  | @edit offset e es front gone behind behind' hstart hstop _ ih =>
    refine List.forall_mem_cons.mpr ⟨by omega, fun f hf => ?_⟩
    have hle := ih f hf
    omega

/-- Edits that are made at once stand one behind the other. -/
theorem pairwise_inFront (h : Spliced offset es text text') : es.Pairwise Edit.InFront := by
  induction h with
  | done => exact .nil
  | edit _ _ hrest ih => exact List.pairwise_cons.mpr ⟨hrest.forall_offset_le, ih⟩

/-- Edits that are made at once are valid. -/
theorem valid_of_mem (h : Spliced offset es text text') {before : List Char}
    (hbefore : Text.byteLength before = offset) :
    ∀ e ∈ es, e.Valid (before ++ text) := by
  induction h generalizing before with
  | done => exact List.forall_mem_nil _
  | @edit offset e es front gone behind behind' hstart hstop _ ih =>
    -- the offsets count from the start of the whole text, with what precedes the splice
    have hfront : Text.byteLength (before ++ front) = e.span.start.offset := by
      rw [Text.byteLength_append]
      omega
    have hgone : Text.byteLength (before ++ front ++ gone) = e.span.stop.offset := by
      rw [Text.byteLength_append]
      omega
    have hvalid : e.Valid (before ++ (front ++ (gone ++ behind))) :=
      ⟨by omega, ⟨before ++ front, gone ++ behind, by simp, hfront⟩,
        ⟨before ++ front ++ gone, behind, by simp, hgone⟩⟩
    have hrest := ih hgone
    rw [List.append_assoc, List.append_assoc] at hrest
    exact List.forall_mem_cons.mpr ⟨hvalid, hrest⟩

end Spliced

/-! ### One edit after the other -/

namespace Fixed

variable {text : List Char} {limit : Nat} {made es : List Edit} {fixed : Fixed} {e : Edit}

/-- What is left of a text on the way: up to the limit it is as it was, and from there on the given
edits have been made at once. The limit is where the first of them begins, or the end. -/
structure Partway (text : List Char) (limit : Nat) (made : List Edit) (fixed : Fixed) : Prop where
  spliced : ∃ front back back', text = front ++ back ∧ Text.byteLength front = limit ∧
    fixed.text = front ++ back' ∧ Spliced limit made back back'
  count_eq : fixed.count = made.length
  limit_eq : limit = (made.head?.map (·.span.start.offset)).getD (Text.byteLength text)

theorem Partway.start (text : List Char) :
    Partway text (Text.byteLength text) [] ⟨text, 0⟩ where
  spliced := ⟨text, [], [], by simp, rfl, by simp, .done _ _⟩
  count_eq := rfl
  limit_eq := rfl

/-- An edit that is made joins those made before it. -/
theorem Partway.step (h : Partway text limit made fixed) {text' : List Char}
    (hsplice : e.splice? limit fixed.text = some text') :
    Partway text e.span.start.offset (e :: made) ⟨text', fixed.count + 1⟩ := by
  obtain ⟨front, back, back', htext, hlimit, hfixed, hspliced⟩ := h.spliced
  obtain ⟨pre, gone, behind, hcut, hstart, hstop, hle, rfl⟩ := Edit.exists_cut_of_splice? hsplice
  -- the edit ends in front of the limit, so it lies in the part that is as it was
  have hlength : Text.byteLength (pre ++ gone) ≤ Text.byteLength front := by
    rw [Text.byteLength_append]
    omega
  rw [hfixed, ← List.append_assoc pre gone] at hcut
  obtain ⟨mid, rfl, rfl⟩ := Text.exists_mid hcut hlength
  have hmid : limit = e.span.stop.offset + Text.byteLength mid := by
    rw [← hlimit, Text.byteLength_append, Text.byteLength_append]
    omega
  rw [hmid] at hspliced
  have hnow : Spliced e.span.start.offset (e :: made) ([] ++ (gone ++ (mid ++ back)))
      ([] ++ (e.replacement.toList ++ (mid ++ back'))) :=
    .edit rfl hstop (hspliced.keep mid)
  refine ⟨⟨pre, gone ++ (mid ++ back), _, ?_, hstart.symm, rfl, hnow⟩, ?_, rfl⟩
  · rw [htext]
    simp
  · rw [h.count_eq, List.length_cons]

/-- A valid edit that ends in front of the limit is made. -/
theorem Partway.exists_splice? (h : Partway text limit made fixed) (he : e.Valid text)
    (hle : e.span.stop.offset ≤ limit) : ∃ text', e.splice? limit fixed.text = some text' := by
  obtain ⟨front, back, back', htext, hlimit, hfixed, -⟩ := h.spliced
  obtain ⟨pre, gone, behind, hcut, hstart, hstop⟩ := he.exists_cut
  -- the edit lies in the front, which is still as it was
  have hlength : Text.byteLength (pre ++ gone) ≤ Text.byteLength front := by
    rw [Text.byteLength_append]
    omega
  rw [htext, ← List.append_assoc pre gone] at hcut
  obtain ⟨mid, rfl, -⟩ := Text.exists_mid hcut hlength
  rw [hfixed, List.append_assoc, List.append_assoc]
  exact ⟨_, Spliced.splice?_eq hstart hstop hle⟩

/-- An edit that is not made is not valid, or overlaps the edit made last. -/
theorem Partway.of_splice?_eq_none (h : Partway text limit made fixed)
    (hfirst : ∀ f ∈ made, f.comesFirst e = true) (hsplice : e.splice? limit fixed.text = none) :
    ¬ e.Valid text ∨ ∃ f ∈ made, e.Overlaps f := by
  by_contra hnot
  obtain ⟨hvalid, hapart⟩ := not_or.mp hnot
  have hvalid : e.Valid text := not_not.mp hvalid
  have hbeyond : limit < e.span.stop.offset := by
    by_contra hle
    obtain ⟨text', hsome⟩ := h.exists_splice? hvalid (by omega)
    rw [hsome] at hsplice
    cases hsplice
  have hlimit := h.limit_eq
  cases made with
  | nil =>
    have hinside := hvalid.stop_boundary.le
    change limit = Text.byteLength text at hlimit
    omega
  | cons f made =>
    change limit = f.span.start.offset at hlimit
    -- `f` begins behind the edit, or at its start and then does not end before it
    have horder := hfirst f List.mem_cons_self
    simp only [Edit.comesFirst, Bool.or_eq_true, Bool.and_eq_true, decide_eq_true_eq] at horder
    obtain ⟨front, back, back', htext, hlength, -, hspliced⟩ := h.spliced
    have hordered : f.span.start.offset ≤ f.span.stop.offset :=
      (hspliced.valid_of_mem hlength f List.mem_cons_self).ordered
    exact hapart ⟨f, List.mem_cons_self, by omega, by omega⟩

/-- **From the last edit to the first.** In the end all edits are made at once but those that are
not valid or overlap one that is made. -/
theorem Partway.applyAll (h : Partway text limit made fixed)
    (hsorted : es.Pairwise (Edit.comesFirst · ·))
    (hfirst : ∀ f ∈ made, ∀ e ∈ es, f.comesFirst e = true) :
    ∃ limit' added skipped, (added ++ skipped).Perm es ∧
      Partway text limit' (added ++ made) (Fixed.applyAll limit fixed es) ∧
      ∀ e ∈ skipped, ¬ e.Valid text ∨ ∃ f ∈ added ++ made, e.Overlaps f := by
  -- in front of the limit the text is still as it was, and the edits to come begin there
  induction es generalizing limit made fixed with
  | nil => exact ⟨limit, [], [], .nil, h, List.forall_mem_nil _⟩
  | cons e es ih =>
    obtain ⟨he, hsorted⟩ := List.pairwise_cons.mp hsorted
    have hrest : ∀ f ∈ made, ∀ g ∈ es, f.comesFirst g = true :=
      fun f hf g hg => hfirst f hf g (List.mem_cons_of_mem e hg)
    cases hsplice : e.splice? limit fixed.text with
    | some text' =>
      have hmore : ∀ f ∈ e :: made, ∀ g ∈ es, f.comesFirst g = true :=
        List.forall_mem_cons.mpr ⟨he, hrest⟩
      obtain ⟨limit', added, skipped, hperm, hpartway, hskipped⟩ :=
        ih (h.step hsplice) hsorted hmore
      rw [List.append_cons added e made] at hpartway hskipped
      refine ⟨limit', added ++ [e], skipped, ?_, ?_, hskipped⟩
      · rw [List.append_assoc]
        exact List.perm_middle.trans (hperm.cons e)
      · rw [Fixed.applyAll, hsplice]
        exact hpartway
    | none =>
      -- the edit is left out, and nothing changes for the others
      obtain ⟨limit', added, skipped, hperm, hpartway, hskipped⟩ := ih h hsorted hrest
      refine ⟨limit', added, e :: skipped, List.perm_middle.trans (hperm.cons e), ?_, ?_⟩
      · rw [Fixed.applyAll, hsplice]
        exact hpartway
      · refine List.forall_mem_cons.mpr ⟨?_, hskipped⟩
        have hbefore : ∀ f ∈ made, f.comesFirst e = true :=
          fun f hf => hfirst f hf e List.mem_cons_self
        rcases h.of_splice?_eq_none hbefore hsplice with hinvalid | ⟨f, hf, hover⟩
        · exact .inl hinvalid
        · exact .inr ⟨f, List.mem_append_right added hf, hover⟩

end Fixed

/-! ### Repeated stretches -/

namespace Edit

theorem sameStretch_iff {e f : Edit} :
    e.sameStretch f = true ↔ e.span.start.offset = f.span.start.offset ∧
      e.span.stop.offset = f.span.stop.offset := by
  simp [sameStretch]

theorem sameStretch_trans {e f g : Edit} (hef : e.sameStretch f = true)
    (hfg : f.sameStretch g = true) : e.sameStretch g = true := by
  rw [sameStretch_iff] at *
  exact ⟨hef.1.trans hfg.1, hef.2.trans hfg.2⟩

theorem sameStretch_symm {e f : Edit} (h : e.sameStretch f = true) : f.sameStretch e = true := by
  rw [sameStretch_iff] at *
  exact ⟨h.1.symm, h.2.symm⟩

theorem dropRepeats_sublist (es : List Edit) : (dropRepeats es).Sublist es := by
  induction es with
  | nil => exact .slnil
  | cons e es ih =>
    rw [dropRepeats]
    split
    · exact (List.nil_sublist es).cons_cons e
    · next f fs heq =>
      rw [heq] at ih
      -- of two neighbours on one stretch the first stays
      split
      · exact ((List.sublist_cons_self f fs).trans ih).cons_cons e
      · exact ih.cons_cons e

/-- An edit that is dropped has its stretch in common with one that is kept. -/
theorem exists_dropped (es : List Edit) :
    ∃ dropped, (dropRepeats es ++ dropped).Perm es ∧
      ∀ e ∈ dropped, ∃ f ∈ dropRepeats es, e.sameStretch f = true := by
  induction es with
  | nil => exact ⟨[], .nil, List.forall_mem_nil _⟩
  | cons e es ih =>
    obtain ⟨dropped, hperm, hdropped⟩ := ih
    rw [dropRepeats]
    split
    · next hnil =>
      rw [hnil] at hperm hdropped
      exact ⟨dropped, hperm.cons e, fun d hd => absurd (hdropped d hd) (by simp)⟩
    · next f fs hcons =>
      rw [hcons] at hperm hdropped
      split
      · next hsame =>
        -- `e` takes the place of `f`, also for those that were dropped because of `f`
        refine ⟨f :: dropped, (List.perm_middle.trans hperm).cons e, ?_⟩
        refine List.forall_mem_cons.mpr
          ⟨⟨e, List.mem_cons_self, sameStretch_symm hsame⟩, fun d hd => ?_⟩
        obtain ⟨g, hg, hdg⟩ := hdropped d hd
        rcases List.mem_cons.mp hg with rfl | hg
        · exact ⟨e, List.mem_cons_self, sameStretch_trans hdg (sameStretch_symm hsame)⟩
        · exact ⟨g, List.mem_cons_of_mem e hg, hdg⟩
      · refine ⟨dropped, hperm.cons e, fun d hd => ?_⟩
        obtain ⟨g, hg, hdg⟩ := hdropped d hd
        exact ⟨g, List.mem_cons_of_mem e hg, hdg⟩

/-- Whether an edit is valid, and what it overlaps, is told by its stretch alone. -/
theorem left_out_of_sameStretch {text : List Char} {made : List Edit} {e f : Edit}
    (hsame : e.sameStretch f = true) (hf : ¬ f.Valid text ∨ ∃ g ∈ made, f.Overlaps g) :
    ¬ e.Valid text ∨ ∃ g ∈ made, e.Overlaps g := by
  -- validity and overlap depend on the stretch alone
  obtain ⟨hstart, hstop⟩ := sameStretch_iff.mp hsame
  refine hf.imp (mt fun he => ?_) ?_
  · exact ⟨by rw [← hstart, ← hstop]; exact he.ordered, hstart ▸ he.start_boundary,
      hstop ▸ he.stop_boundary⟩
  · rintro ⟨g, hg, hover⟩
    refine ⟨g, hg, ?_⟩
    unfold Overlaps at hover ⊢
    omega

end Edit

/-- **Edits are made at once.** Take any text, findings and selection of codes. The edits that the
selected findings suggest first can be divided into those that are made and those that are left out.
The edits that are made are valid for the text and stand one behind the other, the fixed text is
what they make of the text at once, and they are as many as are counted. Each of the others is not
valid, or overlaps an edit that is made, or begins and ends where an edit does that is made. -/
theorem Fixed.edits_made_at_once (text : List Char) (ds : List Diagnostic)
    (only? : Option (List String)) :
    ∃ made skipped, (made ++ skipped).Perm (ds.flatMap (Fixed.editsOf only?)) ∧
      (∀ e ∈ made, e.Valid text) ∧ made.Pairwise Edit.InFront ∧
      Spliced 0 made text (Fixed.ofFindings text ds only?).text ∧
      (Fixed.ofFindings text ds only?).count = made.length ∧
      ∀ e ∈ skipped, (¬ e.Valid text ∨ ∃ f ∈ made, e.Overlaps f) ∨
        ∃ f ∈ made, e.span.start.offset = f.span.start.offset ∧
          e.span.stop.offset = f.span.stop.offset := by
  rw [← Fixed.edits_eq_flatMap]
  have hsorted := List.pairwise_mergeSort Edit.comesFirst_trans Edit.comesFirst_total
    (Fixed.edits only? ds)
  have hsort := List.mergeSort_perm (Fixed.edits only? ds) Edit.comesFirst
  obtain ⟨dropped, hdrop, hdropped⟩ :=
    Edit.exists_dropped ((Fixed.edits only? ds).mergeSort Edit.comesFirst)
  obtain ⟨limit, made, skipped, hperm, hpartway, hskipped⟩ := (Partway.start text).applyAll
    (hsorted.sublist (Edit.dropRepeats_sublist _)) (List.forall_mem_nil _)
  rw [List.append_nil] at hpartway hskipped
  obtain ⟨front, back, back', htext, hlimit, hfixed, hspliced⟩ := hpartway.spliced
  have hall : Spliced 0 made text (Fixed.ofFindings text ds only?).text := by
    rw [← hlimit, ← Nat.zero_add (Text.byteLength front)] at hspliced
    have hkeep := hspliced.keep front
    rw [← htext, ← hfixed] at hkeep
    exact hkeep
  have hempty : Text.byteLength [] = 0 := rfl
  refine ⟨made, skipped ++ dropped, ?_, hall.valid_of_mem hempty, hall.pairwise_inFront, hall,
    hpartway.count_eq, ?_⟩
  · rw [← List.append_assoc]
    exact (hperm.append_right dropped).trans (hdrop.trans hsort)
  · refine List.forall_mem_append.mpr ⟨fun e he => .inl (hskipped e he), fun e he => ?_⟩
    -- the edit that was kept in its place is made, or left out for a reason that holds of both
    obtain ⟨f, hf, hsame⟩ := hdropped e he
    rcases List.mem_append.mp (hperm.mem_iff.mpr hf) with hmade | hleft
    · exact .inr ⟨f, hmade, Edit.sameStretch_iff.mp hsame⟩
    · exact .inl (Edit.left_out_of_sameStretch hsame (hskipped f hleft))

/-- A finding with suggestions of one edit each, given by their begin, end and text. -/
def Fixed.finding (code : String) (edits : List (Nat × Nat × String)) : Diagnostic where
  code := code
  severity := .warning
  message := ""
  span := ⟨"", ⟨0, 1, 1⟩, ⟨0, 1, 1⟩⟩
  notes := []
  suggestions := edits.map fun (start, stop, text) =>
    ⟨"", [⟨⟨"", ⟨start, 1, 1⟩, ⟨stop, 1, 1⟩⟩, text⟩]⟩

/-- Findings about `aébc`, which has five bytes. The first is of another code than the rest. The
others suggest to replace a stretch past the end; the last character, twice; more than the last
character; a stretch that is turned around; half a character; and to put something in front. -/
def Fixed.tangled : List Diagnostic :=
  [finding "W0001" [(0, 1, "X")], finding "E1004" [(5, 9, "T")],
    finding "E1004" [(4, 5, "Z"), (0, 1, "Y")], finding "E1004" [(4, 5, "W")],
    finding "E1004" [(3, 5, "V")], finding "E1004" [(3, 1, "S")], finding "E1004" [(2, 3, "U")],
    finding "E1004" [(0, 0, "!")]]

/-- Of seven edits the two are made that can be made together. -/
theorem Fixed.tangled_edits_made :
    Fixed.ofFindings "aébc".toList tangled (some ["E1004"]) = ⟨"!aébZ".toList, 2⟩ ∧
      ∃ made skipped, (made ++ skipped).Perm (tangled.flatMap (editsOf (some ["E1004"]))) ∧
        made.length = 2 ∧ skipped.length = 5 ∧
        Spliced 0 made "aébc".toList "!aébZ".toList := by
  have hfixed : Fixed.ofFindings "aébc".toList tangled (some ["E1004"]) = ⟨"!aébZ".toList, 2⟩ := by
    have hsorted : (Fixed.edits (some ["E1004"]) tangled).Pairwise (Edit.comesFirst · ·) := by
      decide +kernel
    rw [Fixed.ofFindings, List.mergeSort_of_pairwise hsorted]
    decide +kernel
  obtain ⟨made, skipped, hperm, -, -, hspliced, hcount, -⟩ :=
    edits_made_at_once "aébc".toList tangled (some ["E1004"])
  rw [hfixed] at hspliced hcount
  have hmade : made.length = 2 := hcount.symm
  have hlength := hperm.length_eq
  have hseven : (tangled.flatMap (editsOf (some ["E1004"]))).length = 7 := by decide +kernel
  rw [List.length_append, hseven] at hlength
  exact ⟨hfixed, made, skipped, hperm, hmade, by omega, hspliced⟩

end MatchCheck
