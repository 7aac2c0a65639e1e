import MatchCheck.Proofs.Fix.Reread

/-!
# When fixes keep a source readable

Fixes do not always leave a text that can be read. There are exactly two ways to fail, and both are
about one match at a time (`MatchTree.Mendable`). A removed arm leaves its comma behind, so that two
commas can come to stand behind the arm in front of it. And a missing case can nest deeper than a
pattern may, since it is put together from all levels at which the arms go down.

`Source.fix_readable_iff` says that there is no third way, for all options and all selections of
codes. `doubled_fix_unreadable` is the first way at its smallest.
-/

namespace MatchCheck

/-- The repair of a match leaves a match that can be read: at most one comma stands behind each arm
that stays, and no added case nests too deep. -/
structure MatchTree.Mendable (sig : Signature) (repair : Repair) (m : MatchTree) : Prop where
  commas : ∀ a ∈ (ArmTree.remaining (m.marks sig repair)).2, a.commas.length ≤ 1
  nesting : ∀ s ∈ m.expr.added sig repair, s.depth ≤ maxNesting

variable {sig : Signature} {repair : Repair}

/-- Of the arms of a repaired match those that stay are as deep as before. -/
theorem MatchTree.valid_repaired_iff {m : MatchTree} (h : (ItemTree.matchExpr m).Valid) :
    (ItemTree.matchExpr (m.repaired sig repair)).Valid ↔ m.Mendable sig repair := by
  obtain ⟨hscrutinee, harms⟩ := h
  have hkept : ∀ b ∈ (ArmTree.remaining (m.marks sig repair)).2, b.Shallow := by
    intro b hb
    obtain ⟨a, ha, hpattern⟩ := ArmTree.exists_of_mem_remaining hb
    rw [m.map_fst_marks] at ha
    unfold ArmTree.Shallow
    rw [hpattern]
    exact (harms a ha).1
  -- what is left to ask for: at most one comma behind each arm, and added arms that nest no deeper
  constructor
  · rintro ⟨-, hvalid⟩
    refine ⟨fun a ha => (hvalid a (List.mem_append_left _ ha)).2, fun s hs => ?_⟩
    have hshallow := (hvalid s.armTree (List.mem_append_right _ (List.mem_map_of_mem hs))).1
    rwa [ArmTree.Shallow, Shape.armTree, Shape.depth_termTree] at hshallow
  · rintro ⟨hcommas, hnesting⟩
    refine ⟨hscrutinee, fun a ha => ?_⟩
    rcases List.mem_append.mp ha with ha | ha
    · exact ⟨hkept a ha, hcommas a ha⟩
    · obtain ⟨s, hs, rfl⟩ := List.mem_map.mp ha
      refine ⟨?_, Nat.zero_le 1⟩
      rw [ArmTree.Shallow, Shape.armTree, Shape.depth_termTree]
      exact hnesting s hs

/-- Declarations are left as they are, so that a repair is safe if the repair of each match is. -/
theorem Derivation.forall_valid_repaired_iff {ls : List Leaf} (d : Derivation ls) :
    (∀ i ∈ d.items, (i.repaired sig repair).Valid) ↔
      ∀ m, .matchExpr m ∈ d.items → m.Mendable sig repair := by
  constructor
  · intro h m hm
    exact (MatchTree.valid_repaired_iff (d.valid _ hm)).mp (h _ hm)
  · intro h i hi
    -- declarations are never edited
    cases i with
    | enumDecl e => exact d.valid _ hi
    | matchExpr m => exact (MatchTree.valid_repaired_iff (d.valid _ hi)).mpr (h m hi)

/-- **When fixes keep a source readable.** A source without findings about its syntax has none after
its fixes exactly if the repair of every match leaves at most one comma behind each arm that stays
and adds no case that nests too deep. -/
theorem Source.fix_readable_iff (source : Source) (options options' : CheckOptions)
    (only? : Option (List String))
    (h : ∀ x ∈ source.check options, Run.isSyntaxCode x.code = false) :
    (∀ x ∈ (source.fix options only?).check options', Run.isSyntaxCode x.code = false) ↔
      ∃ d : Derivation source.leaves, ∀ m, .matchExpr m ∈ d.items →
        m.Mendable d.program.signature (options.repair only?) := by
  rw [Source.forall_isSyntaxCode_iff, Source.program_snd_eq_nil_iff] at h
  obtain ⟨d⟩ := h
  rw [Source.forall_isSyntaxCode_iff, Source.syntaxErrors_fix_iff options only? d,
    d.forall_valid_repaired_iff]
  constructor
  · exact fun hmend => ⟨d, hmend⟩
  · rintro ⟨d', hmend⟩
    -- a text has one derivation at most
    rwa [Subsingleton.elim d d']

/-- A source with an arm that can never be reached, behind an arm without a comma. -/
def mended : Source :=
  .ofString "nat.pmxc" <|
    "enum Nat \x7b Zero, Succ(Nat) \x7d\n" ++
    "match Succ(Zero) \x7b Succ(_) => \x7b\x7d Succ(Zero) => \x7b\x7d, Zero => \x7b\x7d \x7d\n"

/-- The comma of the removed arm comes to stand behind the first arm, which had none. -/
theorem mended_stays_readable :
    (∀ x ∈ mended.check ⟨.warn, 3⟩, Run.isSyntaxCode x.code = false) ∧
      (Fixed.ofFindings mended.text (mended.check ⟨.warn, 3⟩) none).count = 1 ∧
      ∃ d : Derivation mended.leaves, ∀ m, .matchExpr m ∈ d.items →
        m.Mendable d.program.signature ⟨true, true⟩ := by
  have heval : (∀ x ∈ mended.check ⟨.warn, 3⟩, Run.isSyntaxCode x.code = false) ∧
      (Fixed.ofFindings mended.text (mended.check ⟨.warn, 3⟩) none).count = 1 ∧
      ∀ x ∈ (mended.fix ⟨.warn, 3⟩ none).check .default, Run.isSyntaxCode x.code = false := by
    decide +kernel
  obtain ⟨hreadable, hcount, hfixed⟩ := heval
  exact ⟨hreadable, hcount,
    (Source.fix_readable_iff mended ⟨.warn, 3⟩ .default none hreadable).mp hfixed⟩

/-- A source with one arm twice, each with a comma. -/
def doubled : Source :=
  .ofString "bool.pmxc" <|
    "enum B \x7b T, F \x7d\nmatch T \x7b T => \x7b\x7d, T => \x7b\x7d, F => \x7b\x7d \x7d\n"

/-- Its one fix removes the second arm and leaves two commas side by side, which is reported. -/
theorem doubled_fix_unreadable :
    (∀ x ∈ doubled.check ⟨.warn, 3⟩, Run.isSyntaxCode x.code = false) ∧
      (doubled.fix ⟨.warn, 3⟩ none).text =
        ("enum B \x7b T, F \x7d\nmatch T \x7b T => \x7b\x7d, , F => \x7b\x7d \x7d\n").toList ∧
      ∃ x ∈ (doubled.fix ⟨.warn, 3⟩ none).check ⟨.warn, 3⟩, x.code = Code.unexpectedToken.text := by
  decide +kernel

end MatchCheck
