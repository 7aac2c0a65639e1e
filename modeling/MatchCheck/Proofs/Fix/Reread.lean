import MatchCheck.Proofs.Diagnostic.Codes
import MatchCheck.Proofs.Fix.Repair
import MatchCheck.Proofs.Program.Derivation

/-!
# Reading a fixed source again

A source whose text can be read has trees, and they say what its fixes do. The fixed text has the
outline of the repaired trees (`Source.map_strip_leaves_fix`), so it can be read exactly if they are
valid (`Source.syntaxErrors_fix_iff`), and then it holds their program up to places
(`Source.erase_program_fix`).

The arms that are added are written with the names of constructors. Those of a source are names,
also where something else in the text is broken (`Source.signature_spelled`).
-/

namespace MatchCheck

/-! ### Findings about the syntax -/

/-- Findings about the syntax are those of the syntax errors. -/
theorem Source.forall_isSyntaxCode_iff (source : Source) (options : CheckOptions) :
    (∀ x ∈ source.check options, Run.isSyntaxCode x.code = false) ↔ source.program.2 = [] := by
  constructor
  · intro h
    -- any syntax error would be among the findings, under its code
    by_contra hne
    obtain ⟨e, he⟩ := List.exists_mem_of_ne_nil _ hne
    have hfalse := h e.diagnostic (List.mem_append_left _ (List.mem_map_of_mem he))
    rw [e.isSyntaxCode_diagnostic] at hfalse
    cases hfalse
  · intro h x hx
    simp only [Source.check, h, List.map_nil, List.nil_append] at hx
    rcases List.mem_append.mp hx with hx | hx
    · obtain ⟨e, -, rfl⟩ := List.mem_map.mp (List.mem_mergeSort.mp hx)
      exact e.isSyntaxCode_diagnostic
    · obtain ⟨m, -, hx⟩ := List.mem_flatMap.mp hx
      exact MatchExpr.isSyntaxCode_of_mem_check hx

/-! ### Names that were read -/

/-- A leaf was a lexeme, with its kind and its text. -/
theorem Leaf.mem_of_mem_placed {file : String} {p : Position} {ls : List Lexeme} {l : Leaf}
    (h : l ∈ Leaf.placed file p ls) : ⟨l.kind, l.token.text⟩ ∈ ls := by
  induction ls generalizing p with
  | nil => cases h
  | cons m ls ih =>
    -- a leaf is a lexeme that is no trivia
    by_cases hm : m.kind.isTrivia = true
    · rw [placed_cons_of_isTrivia hm] at h
      exact List.mem_cons_of_mem _ (ih h)
    · rw [placed_cons_of_not_isTrivia (by simpa using hm)] at h
      rcases List.mem_cons.mp h with rfl | h
      · exact List.mem_cons_self
      · exact List.mem_cons_of_mem _ (ih h)

/-- A lexeme of a text that is not unknown was formed by a rule. -/
theorem Lexeme.Tiled.formed_of_mem {ls : List Lexeme} {l : Lexeme} (h : Tiled ls) (hl : l ∈ ls)
    (hkind : l.kind ≠ .unknown) : l.Formed := by
  induction h with
  | nil => cases hl
  | rule hformed _ _ ih =>
    rcases List.mem_cons.mp hl with rfl | hl
    · exact hformed
    · exact ih hl
  -- a stray character is of the unknown kind
  | strays _ _ _ _ ih =>
    rcases List.mem_cons.mp hl with rfl | hl
    · exact absurd rfl hkind
    · exact ih hl

/-- A name in a source is a name. -/
theorem Source.isName_of_mem_leaves {source : Source} {l : Leaf} (h : l ∈ source.leaves)
    (hkind : l.kind = .ident) : IsName l.token.name := by
  have hmem := Leaf.mem_of_mem_placed h
  rw [hkind] at hmem
  have hformed := (Lexeme.tiled_scan source.text).1.formed_of_mem hmem (by simp)
  simpa [IsName, Token.name] using hformed

/-- The constructors of a declaration are called by tokens that are names. -/
theorem Reader.gives_enumDecl {T : Token → Prop} {N : String → Prop} {stop : Token}
    (hend : stop.kind = .endOfInput) (h : ∀ t, t.kind = .ident → T t → N t.name) (keyword : Span) :
    Gives T (fun d => ∀ c ∈ d.ctors, N c.name.name) (enumDecl stop keyword) := by
  have hident : Gives T (fun i => N i.name) (ident stop .ctorName) :=
    (gives_expect hend (by decide) _).bind fun t ht => .pure (h t ht.1 ht.2)
  -- only the name is of interest, whatever is read behind it
  have hctor : Gives T (fun c => N c.name.name) (ctorDecl stop) := by
    refine hident.bind fun name hname => Gives.next stop _ fun b => ?_
    split
    · exact Gives.skip ((Gives.trivial _).bind fun _ _ =>
        (Gives.trivial _).bind fun _ _ => .pure hname)
    · exact .pure hname
  have hround : Gives T (fun o => ∀ c ∈ o, N c.name.name) (ctorRound stop) := by
    refine Gives.next stop _ fun b => ?_
    split
    · exact .none
    · exact hctor.bind fun _ hc => (Gives.trivial _).bind fun _ _ => .some hc
  refine (Gives.trivial _).bind fun _ _ => (Gives.trivial _).bind fun _ _ => ?_
  exact (Gives.many hround).bind fun _ hctors => (Gives.trivial _).bind fun _ _ => .pure hctors

/-- **The constructors of a source are called by names**, whatever else is wrong with its text. -/
theorem Source.signature_spelled (source : Source) : source.program.1.signature.Spelled := by
  -- every name of a declaration was read from a token
  have htokens : ∀ t ∈ source.tokens.filter (!·.kind.isTrivia), t.kind = .ident →
      IsName t.name := by
    rw [← source.map_token_leaves]
    exact List.forall_mem_map.mpr fun l hl hkind => isName_of_mem_leaves hl hkind
  have hnames : ∀ d ∈ source.program.1.enumDecls, ∀ c ∈ d.ctors, IsName c.name.name :=
    Program.forall_enumDecls (Reader.gives_enumDecl rfl fun _ hkind ht => ht hkind) htokens
  intro ty hty c hc
  obtain ⟨decl, hdecl, rfl⟩ := Program.exists_enumDecl_of_mem_types hty
  obtain ⟨ctor, hctor, rfl⟩ := EnumDecl.exists_ctorDecl_of_mem_ctors hc
  exact hnames decl hdecl ctor hctor

theorem Derivation.signature_spelled {source : Source} (d : Derivation source.leaves) :
    d.program.signature.Spelled := by
  have hspelled := source.signature_spelled
  rwa [source.program_eq_iff.mpr ⟨d, rfl⟩] at hspelled

/-- The leaves of an item stand together in those of the source. -/
theorem Derivation.infix_of_mem {ls : List Leaf} (d : Derivation ls) {i : ItemTree}
    (hi : i ∈ d.items) : i.leaves <:+: ls := by
  obtain ⟨front, back, hitems⟩ := List.append_of_mem hi
  refine ⟨front.flatMap ItemTree.leaves, back.flatMap ItemTree.leaves, ?_⟩
  rw [← d.leaves_eq, hitems, List.flatMap_append, List.flatMap_cons, List.append_assoc]

/-- A declaration of the program has a tree among the items. -/
theorem ItemTree.exists_enumTree {items : List ItemTree} {decl : EnumDecl}
    (h : decl ∈ Program.enumDecls ⟨items.map item⟩) :
    ∃ e, .enumDecl e ∈ items ∧ e.decl = decl := by
  obtain ⟨item, hitem, hdecl⟩ := List.mem_filterMap.mp h
  obtain ⟨i, hi, rfl⟩ := List.mem_map.mp hitem
  cases i with
  | enumDecl e => exact ⟨e, hi, Option.some.inj hdecl⟩
  | matchExpr m => cases hdecl

/-! ### The fixed source -/

/-- A missing case fits a declared type. -/
theorem MatchExpr.fits_of_mem_missing {sig : Signature} {m : MatchExpr} {s : Shape}
    (h : s ∈ m.missing sig) : ∃ ty ∈ sig.types, s.Fits sig ty := by
  obtain ⟨ty, c, hscrutinee⟩ := exists_scrutinee_of_mem_missing h
  rw [missing_of_scrutinee hscrutinee] at h
  exact ⟨ty, (Signature.mem_of_scrutinee hscrutinee).1, Shape.fits_of_mem_missing h⟩

theorem MatchExpr.spelled_of_mem_added {sig : Signature} {repair : Repair} {m : MatchExpr}
    {s : Shape} (hsig : sig.Spelled) (h : s ∈ m.added sig repair) : s.Spelled := by
  unfold MatchExpr.added at h
  split at h
  · obtain ⟨ty, hty, hfits⟩ := MatchExpr.fits_of_mem_missing h
    exact hfits.spelled hsig hty
  · cases h

namespace Source

/-- A source after the fixes that its own findings suggest. -/
def fix (source : Source) (options : CheckOptions) (only? : Option (List String)) : Source :=
  ⟨source.path, (Fixed.ofFindings source.text (source.check options) only?).text⟩

variable {source : Source} (options : CheckOptions) (only? : Option (List String))

/-- Without syntax errors the findings are those about the program. -/
theorem check_eq_of_derivation (d : Derivation source.leaves) :
    source.check options = d.program.check options := by
  simp only [check, source.program_eq_iff.mpr ⟨d, rfl⟩, List.map_nil, List.nil_append]

/-- **The outline of a fixed source** is that of the repaired trees. -/
theorem map_strip_leaves_fix (d : Derivation source.leaves) :
    (source.fix options only?).leaves.map Leaf.strip =
      ((d.items.map (ItemTree.repaired d.program.signature (options.repair only?))).flatMap
        ItemTree.leaves).map Leaf.strip := by
  have hspelled : ∀ i ∈ d.items, ∀ m, i = .matchExpr m →
      ∀ s ∈ m.expr.added d.program.signature (options.repair only?), s.Spelled :=
    fun _ _ _ _ _ hs => MatchExpr.spelled_of_mem_added d.signature_spelled hs
  have hfits : ∀ x ∈ d.items.flatMap
      (ItemTree.pieces d.program.signature (options.repair only?)), x.Fits := by
    intro x hx
    obtain ⟨i, hi, hx⟩ := List.mem_flatMap.mp hx
    exact ItemTree.fits_pieces (source.lined_leaves.of_infix (d.infix_of_mem hi))
      (hspelled i hi) x hx
  -- the pieces hold all leaves of the source, item by item
  have hbefore : source.leaves = (d.items.flatMap
      (ItemTree.pieces d.program.signature (options.repair only?))).flatMap Piece.before := by
    simp only [List.flatMap_assoc, ItemTree.before_pieces, d.leaves_eq]
  have hperm : (Fixed.edits only? (source.check options)).Perm ((d.items.flatMap
      (ItemTree.pieces d.program.signature (options.repair only?))).flatMap Piece.edits) := by
    rw [check_eq_of_derivation options d, ItemTree.edits_pieces]
    exact d.program.edits_check_perm options only?
  -- the patch says what it leaves item by item
  rw [map_strip_leaves]
  refine (outline_ofFindings hfits hbefore hperm).trans ?_
  rw [List.flatMap_assoc, List.flatMap_map, List.map_flatMap]
  exact List.flatMap_congr fun i hi => ItemTree.after_pieces i (hspelled i hi)

/-- **A fixed source can be read exactly if the repaired trees are valid.** -/
theorem syntaxErrors_fix_iff (d : Derivation source.leaves) :
    (source.fix options only?).program.2 = [] ↔ ∀ i ∈ d.items,
      (i.repaired d.program.signature (options.repair only?)).Valid := by
  rw [program_snd_eq_nil_iff, Derivation.nonempty_iff (map_strip_leaves_fix options only? d)]
  exact List.forall_mem_map

/-- A fixed source that can be read holds the repaired program, up to places. -/
theorem erase_program_fix (d : Derivation source.leaves)
    (d' : Derivation (source.fix options only?).leaves) :
    d'.program.erase = Program.erase ⟨(d.items.map (ItemTree.repaired d.program.signature
      (options.repair only?))).map ItemTree.item⟩ :=
  d'.erase_program (map_strip_leaves_fix options only? d)

end Source

end MatchCheck
