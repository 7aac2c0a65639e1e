import MatchCheck.Proofs.Check.Moved
import MatchCheck.Proofs.Fix.Reread

/-!
# Written shapes are read back

A shape is written as a pattern, and the text of a pattern is scanned, read and resolved. For a
shape that fits a type of a source this leads back to the shape, as long as the pattern does not
nest too deep (`Shape.render_read_back`). Names are what the way back rests on: those of a source
are no keywords, and each means one constructor of its type.

The reader gives the pattern with its places, while `Shape.pattern` has none. The two are compared
by the tree of the text: it is the tree of the shape once its places are forgotten
(`Shape.exists_termTree`), and resolution does not look at places
(`Signature.resolve_eq_of_move_eq`).
-/

namespace MatchCheck

/-- What a reader makes of the text of a source. -/
def Source.readBy {α : Type} (source : Source) (p : Token → Reader α) : Reply α :=
  (p source.endToken).run (source.tokens.filter (!·.kind.isTrivia))

theorem Source.readBy_eq_of_reads {α : Type} {source : Source} {p : Token → Reader α} {a : α}
    (h : (p source.endToken).Reads source.leaves a []) : source.readBy p = ⟨[], [], .ok a⟩ := by
  rw [readBy, ← source.map_token_leaves]
  exact h.1

/-- **Resolution does not look at places.** -/
theorem Signature.resolve_eq_of_move_eq {sig : Signature} {ty : TypeDef} {p q : Pattern}
    {s : Shape} (h : p.move .forget = q.move .forget) (hq : sig.resolve ty q = .ok s) :
    sig.resolve ty p = .ok s := by
  -- to resolve and to forget places can be done in either order
  have hmoved (r : Pattern) := sig.resolve_relocate .forget .forget ty r
  have hp := hmoved p
  rw [Pattern.relocate_forget, h, ← Pattern.relocate_forget, hmoved q, hq] at hp
  cases hr : sig.resolve ty p with
  | error e =>
    rw [hr] at hp
    cases hp
  | ok t =>
    rw [hr] at hp
    exact hp.symm

namespace Shape

variable {sig : Signature} {ty : TypeDef} {s : Shape}

/-- The text of a shape has its tree, up to places. -/
theorem exists_termTree (hs : s.Spelled) (path : String) :
    ∃ t : TermTree .pattern, t.leaves = Source.leaves ⟨path, s.render.toList⟩ ∧
      t.move .forget = s.termTree := by
  -- the lexemes of the shape are those that its text is cut into, so they have its outline
  have htiled : Lexeme.Tiled s.lexemes := by
    simpa using tiled_lexemes_append hs .nil nofun
  have hend : TokenKind.breaksFirst (([] : List Lexeme).map (·.kind)) = false := rfl
  have houtline : Lexeme.outline s.lexemes = s.termTree.leaves := by
    simpa [Lexeme.outline] using outline_lexemes_append s hend
  refine s.termTree.lifts _ ?_
  rw [Source.map_strip_leaves, ← texts_lexemes, Lexeme.scan_texts htiled, houtline]

/-- The pattern of a shape has no places that could be changed. -/
theorem move_pattern {g : Span → Span} (hg : g default = default) (s : Shape) :
    s.pattern.move g = s.pattern := by
  induction s with
  | any => rfl
  | bare c => simp [pattern, Pattern.move, Ident.move, hg]
  | wrap c arg ih => simp [pattern, Pattern.move, Ident.move, hg, ih]

theorem depth_eq_of_move {t : TermTree .pattern} (ht : t.move .forget = s.termTree) :
    t.depth = s.depth := by
  rw [← t.depth_move .forget, ht, depth_termTree]

/-- A tree of a shape stands for a pattern that is resolved to the shape. -/
theorem Fits.resolve_value (h : s.Fits sig ty) (hsig : sig.Distinct) (hty : ty ∈ sig.types)
    {t : TermTree .pattern} (ht : t.move .forget = s.termTree) :
    sig.resolve ty t.value = .ok s := by
  -- the tree and the shape stand for one pattern, but for places
  refine Signature.resolve_eq_of_move_eq ?_ (h.resolve_pattern hsig hty)
  have hvalue : (t.move .forget).value.move id = t.value.move .forget := t.value_move .forget
  rw [← hvalue, ht, value_termTree, s.move_pattern rfl, s.move_pattern rfl]

/-- The text of a shape is read as a pattern, to its end and without an error, and the pattern is
resolved to the shape. -/
def ReadBack (sig : Signature) (ty : TypeDef) (s : Shape) : Prop :=
  ∀ path, ∃ p,
    Source.readBy ⟨path, s.render.toList⟩ (Reader.pattern · maxNesting) = ⟨[], [], .ok p⟩ ∧
      sig.resolve ty p = .ok s

/-- **A shape that fits is read back from its text**, unless it nests too deep. -/
theorem Fits.readBack (h : s.Fits sig ty) (hsig : sig.Distinct) (hspelled : sig.Spelled)
    (hty : ty ∈ sig.types) (hdepth : s.depth ≤ maxNesting) : s.ReadBack sig ty := by
  intro path
  obtain ⟨t, hleaves, ht⟩ := exists_termTree (h.spelled hspelled hty) path
  have hstop : (Source.endToken ⟨path, s.render.toList⟩).kind = .endOfInput := rfl
  -- nothing follows, so that the pattern ends where the text does
  have hends : t.Ends [] := t.ends_of_beginsNot nofun
  have hreads := (Reader.readsTerms_term hstop .pattern maxNesting _ _ _).mpr
    ⟨t, depth_eq_of_move ht ▸ hdepth, (List.append_nil _).symm, rfl, hends⟩
  rw [hleaves] at hreads
  exact ⟨t.value, Source.readBy_eq_of_reads hreads, h.resolve_value hsig hty ht⟩

/-- **Rendering and reading patterns are inverse**, for all shapes that fit a type of a source and
for all cases that any shapes leave out of it, unless they nest too deep. -/
theorem render_read_back (source : Source) {ty : TypeDef}
    (hty : ty ∈ source.program.1.signature.types) :
    (∀ s : Shape, s.Fits source.program.1.signature ty → s.depth ≤ maxNesting →
      s.ReadBack source.program.1.signature ty) ∧
    ∀ shapes, ∀ w ∈ missing source.program.1.signature ty shapes, w.depth ≤ maxNesting →
      w.ReadBack source.program.1.signature ty := by
  have hread : ∀ s : Shape, s.Fits source.program.1.signature ty → s.depth ≤ maxNesting →
      s.ReadBack source.program.1.signature ty := fun s hs hdepth =>
    hs.readBack source.program.1.signature_distinct source.signature_spelled hty hdepth
  exact ⟨hread, fun shapes w hw hdepth => hread w (fits_of_mem_missing hw) hdepth⟩

end Shape

/-- A source with a field of an undeclared type, and with a declaration that breaks off. -/
def crates : Source :=
  .ofString "crates.pmxc" "enum Crate \x7b Sealed(Goods), Nested(Crate) \x7d\nenum Ship \x7b\n"

/-- Below the undeclared type nothing is told apart, and the pattern is read back all the same. -/
theorem crates_read_back :
    crates.program.2 ≠ [] ∧ ∃ ty ∈ crates.program.1.signature.types,
      (∃ s : Shape, s.Fits crates.program.1.signature ty ∧
        s.render = "Nested(Nested(Sealed(_)))" ∧ s.ReadBack crates.program.1.signature ty) ∧
      ∃ w ∈ Shape.missing crates.program.1.signature ty [], w.render = "Sealed(_)" ∧
        w.ReadBack crates.program.1.signature ty := by
  -- the constructors of the type are taken from the source as it is read
  have heval : crates.program.2 ≠ [] ∧ ∃ ty ∈ crates.program.1.signature.types,
      (∃ c ∈ ty.ctors, c.name = "Nested" ∧ crates.program.1.signature.fieldType? c = some ty) ∧
      (∃ d ∈ ty.ctors, d.name = "Sealed" ∧ d.field.isSome = true ∧
        crates.program.1.signature.fieldType? d = none) ∧
      ∃ w ∈ Shape.missing crates.program.1.signature ty [], w.render = "Sealed(_)" ∧
        w.depth ≤ maxNesting := by
    decide +kernel
  obtain ⟨herrors, ty, hty, ⟨c, hc, hnested, hfield⟩, ⟨d, hd, hsealed, hsome, hnone⟩,
    w, hw, hrender, hdepth⟩ := heval
  obtain ⟨hread, hmissing⟩ := Shape.render_read_back crates hty
  have hfits : (Shape.wrap (ty.ref c) (.wrap (ty.ref c) (.wrap (ty.ref d) .any))).Fits
      crates.program.1.signature ty :=
    .wrap hc hfield (.wrap hc hfield (.foreign hd hsome hnone))
  have hback := hread _ hfits (by simp [Shape.depth, maxNesting])
  refine ⟨herrors, ty, hty, ⟨_, hfits, ?_, hback⟩, w, hw, hrender, hmissing [] w hw hdepth⟩
  simp [Shape.render, TypeDef.ref, hnested, hsealed]

end MatchCheck
