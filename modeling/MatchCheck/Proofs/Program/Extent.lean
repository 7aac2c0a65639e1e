import MatchCheck.Proofs.Check.Genuine

/-!
# No piece of a program is empty

Whatever is read is at the span of a token, or at a span that is merged from spans of tokens. So if
the tokens are at spans of one kind, and merging stays within the kind, then all spans of a program
are of this kind (`Program.all_layouts`). The readers are gone through one by one with a judgement
about what they read (`Reader.Gives`). Where they stop and what they report does not matter here,
and the token at the end is never part of anything that is read.

The tokens of a source are not empty, and merged spans only grow. So no name and no larger piece of
a program is empty (`Source.all_proper`), and pieces that stand one behind the other begin at
different offsets.
-/

namespace MatchCheck

/-- A span that holds at least one character. -/
def Span.Proper (s : Span) : Prop :=
  s.start.offset < s.stop.offset

/-- Merging only makes a span longer. -/
theorem Span.Proper.merge {s t : Span} (hs : s.Proper) : (s.merge t).Proper := by
  have hs : s.start.offset < s.stop.offset := hs
  show (s.merge t).start.offset < (s.merge t).stop.offset
  rw [Span.offset_start_merge, Span.offset_stop_merge]
  omega

namespace Reader

variable {α β : Type} {G : Span → Prop}

/-! ### The readers of the grammar -/

section Grammar

variable {stop : Token} (hend : stop.kind = .endOfInput)
include hend

/-- An expected token is one of those that were given, so its span is of the kind. -/
theorem gives_span_expect {kind : TokenKind} (hkind : kind ≠ .endOfInput) (expected : Expectation) :
    Gives (G ·.span) (fun t => G t.span) (expect stop kind expected) :=
  fun ts hts t ht => (gives_expect hend hkind expected ts hts t ht).2

theorem gives_span_ident (expected : Expectation) :
    Gives (G ·.span) (fun i => G i.span) (ident stop expected) :=
  (gives_span_expect hend (by decide) expected).bind fun _ ht => .pure ht

/-- The last span of a name with arguments is that of the name or of the closing parenthesis. -/
theorem gives_all_arguments {name : Ident} (hname : G name.span) {inner : Span → Reader (List α)}
    {P : α → Prop} (h : ∀ s, Gives (G ·.span) (fun as => ∀ a ∈ as, P a) (inner s)) :
    Gives (G ·.span) (fun x => (∀ a ∈ x.1, P a) ∧ G x.2) (arguments stop name inner) := by
  refine (gives_peek hend).bind fun t _ => ?_
  split
  · refine Gives.skip ((h t.span).bind fun args hargs => ?_)
    exact (gives_span_expect hend (by decide) _).bind fun close hclose => .pure ⟨hargs, hclose⟩
  · exact .pure ⟨List.forall_mem_nil P, hname⟩

variable (hmerge : ∀ s t, G s → G t → G (s.merge t))
include hmerge

/-- All spans of an expression are merged from those of its tokens. -/
theorem gives_all_exprWith {inner : Span → Reader (List Expr)}
    (h : ∀ s, Gives (G ·.span) (fun es => ∀ e ∈ es, e.layout.All G) (inner s)) :
    Gives (G ·.span) (fun e => e.layout.All G) (exprWith stop inner) := by
  refine (gives_span_ident hend _).bind fun name hname => ?_
  refine (gives_all_arguments hend hname h).bind ?_
  rintro ⟨args, last⟩ ⟨hargs, hlast⟩
  refine .pure (.piece (hmerge _ _ hname hlast) (List.forall_mem_cons.mpr ⟨.name hname, ?_⟩))
  rw [Expr.layouts_eq_map]
  exact List.forall_mem_map.mpr hargs

/-- So are those of a pattern. -/
theorem gives_all_patternWith {inner : Span → Reader (List Pattern)}
    (h : ∀ s, Gives (G ·.span) (fun ps => ∀ p ∈ ps, p.layout.All G) (inner s)) :
    Gives (G ·.span) (fun p => p.layout.All G) (patternWith stop inner) := by
  refine (gives_peek hend).bind fun t ht => ?_
  split
  · next hkind =>
    -- an underscore is a token that was given, since it is not the end
    exact Gives.skip (.pure (.piece (ht (hkind ▸ by decide)) (List.forall_mem_nil _)))
  · refine (gives_span_ident hend _).bind fun name hname => ?_
    refine (gives_all_arguments hend hname h).bind ?_
    rintro ⟨args, last⟩ ⟨hargs, hlast⟩
    refine .pure (.piece (hmerge _ _ hname hlast) (List.forall_mem_cons.mpr ⟨.name hname, ?_⟩))
    rw [Pattern.layouts_eq_map]
    exact List.forall_mem_map.mpr hargs

/-- Expressions have spans of the kind, whatever depth is left. -/
theorem gives_all_expr (n : Nat) : Gives (G ·.span) (fun e => e.layout.All G) (expr stop n) := by
  induction n with
  | zero => exact gives_all_exprWith hend hmerge fun _ => .fail _
  | succ n ih => exact gives_all_exprWith hend hmerge fun _ => gives_argumentList ih

theorem gives_all_pattern (n : Nat) :
    Gives (G ·.span) (fun p => p.layout.All G) (pattern stop n) := by
  induction n with
  | zero => exact gives_all_patternWith hend hmerge fun _ => .fail _
  | succ n ih => exact gives_all_patternWith hend hmerge fun _ => gives_argumentList ih

omit hmerge in
/-- Further fields are not kept. -/
theorem gives_span_fields (ctor : Ident) :
    Gives (G ·.span) (fun o => ∀ i ∈ o, G i.span) (fields stop ctor) := by
  -- what the further fields are does not matter, since the first one is returned
  have hrest : ∀ field : Option Ident, (∀ i ∈ field, G i.span) →
      Gives (G ·.span) (fun o => ∀ i ∈ o, G i.span) (extraFields stop ctor field) := by
    intro field hfield
    refine (Gives.trivial _).bind fun extra _ => ?_
    cases extra with
    | nil => exact .pure hfield
    | cons first others => exact (Gives.trivial _).bind fun _ _ => .pure hfield
  refine Gives.next stop _ fun b => ?_
  cases b with
  | true => exact Gives.none.bind hrest
  | false => exact Gives.bind ((gives_span_ident hend _).bind fun _ hi => .some hi) hrest

/-- A constructor has spans of the kind. -/
theorem gives_all_ctorDecl : Gives (G ·.span) (fun c => c.layout.All G) (ctorDecl stop) := by
  refine (gives_span_ident hend _).bind fun name hname => Gives.next stop _ fun b => ?_
  split
  · refine Gives.skip ((gives_span_fields hend name).bind fun field hfield => ?_)
    refine (gives_span_expect hend (by decide) _).bind fun close hclose => .pure ?_
    refine .piece (hmerge _ _ hname hclose) (List.forall_mem_cons.mpr ⟨.name hname, ?_⟩)
    exact List.forall_mem_map.mpr fun i hi => .name (hfield i (Option.mem_toList.mp hi))
  · exact .pure (.piece hname (List.forall_mem_singleton.mpr (.name hname)))

/-- A declaration has spans of the kind, if its keyword has. -/
theorem gives_all_enumDecl {keyword : Span} (hkeyword : G keyword) :
    Gives (G ·.span) (fun d => d.layout.All G) (enumDecl stop keyword) := by
  -- what divides the constructors is not kept
  have hround : Gives (G ·.span) (fun o => ∀ c ∈ o, c.layout.All G) (ctorRound stop) := by
    refine Gives.next stop _ fun b => ?_
    split
    · exact .none
    · refine (gives_all_ctorDecl hend hmerge).bind fun _ hctor => ?_
      exact (Gives.trivial _).bind fun _ _ => .some hctor
  refine (gives_span_ident hend _).bind fun name hname => (Gives.trivial _).bind fun _ _ => ?_
  refine (Gives.many hround).bind fun ctors hctors => ?_
  refine (gives_span_expect hend (by decide) _).bind fun close hclose => .pure ?_
  refine .piece (hmerge _ _ hkeyword hclose) (List.forall_mem_cons.mpr ⟨.name hname, ?_⟩)
  exact List.forall_mem_map.mpr hctors

omit hend in
/-- A block reaches from its opening brace to one of the tokens. -/
theorem of_closeBlock {opening s : Span} (hopening : G opening) {depth : Nat} {ts : List Token}
    (hts : ∀ t ∈ ts, G t.span) (hs : (closeBlock stop opening depth ts).result = .ok s) : G s := by
  -- token by token, up to the brace that closes the block
  induction ts generalizing depth with
  | nil => cases hs
  | cons t ts ih =>
    obtain ⟨ht, hts⟩ := List.forall_mem_cons.mp hts
    unfold closeBlock at hs
    split at hs
    · exact ih hts hs
    · cases hs
      exact hmerge _ _ hopening ht
    · exact ih hts hs
    · exact ih hts hs

/-- An arm has spans of the kind. -/
theorem gives_all_arm : Gives (G ·.span) (fun a => a.layout.All G) (arm stop) := by
  have hblock : Gives (G ·.span) G (block stop) :=
    (gives_span_expect hend (by decide) _).bind fun opening hopening ts hts s hs =>
      of_closeBlock hmerge hopening hts hs
  refine (gives_all_pattern hend hmerge _).bind fun pattern hpattern => ?_
  refine (Gives.trivial _).bind fun _ _ => hblock.bind fun body hbody => .pure ?_
  -- the pattern's own span is that of its layout
  have hspan : G pattern.span := by
    cases pattern <;> exact hpattern.span
  refine .piece (hmerge _ _ hspan hbody) (List.forall_mem_cons.mpr ⟨hpattern, ?_⟩)
  exact List.forall_mem_singleton.mpr (.piece hbody (List.forall_mem_nil _))

/-- A match has spans of the kind, if its keyword has. -/
theorem gives_all_matchExpr {keyword : Span} (hkeyword : G keyword) :
    Gives (G ·.span) (fun m => m.layout.All G) (matchExpr stop keyword) := by
  -- an arm, and maybe a comma, which leaves no span
  have hround : Gives (G ·.span) (fun o => ∀ a ∈ o, a.layout.All G) (armRound stop) := by
    refine (Gives.trivial _).bind fun t _ => ?_
    split
    · exact .none
    · refine (gives_all_arm hend hmerge).bind fun _ ha => Gives.next stop _ fun b => ?_
      split
      · exact Gives.skip (.some ha)
      · exact .some ha
  refine (gives_all_expr hend hmerge _).bind fun scrutinee hscrutinee => ?_
  refine (Gives.trivial _).bind fun _ _ => (Gives.many hround).bind fun arms harms => ?_
  refine (gives_span_expect hend (by decide) _).bind fun close hclose => .pure ?_
  refine .piece (hmerge _ _ hkeyword hclose) ?_
  refine List.forall_mem_cons.mpr ⟨.piece hkeyword (List.forall_mem_nil _), ?_⟩
  refine List.forall_mem_cons.mpr ⟨hscrutinee, List.forall_mem_append.mpr ⟨?_, ?_⟩⟩
  · exact List.forall_mem_map.mpr harms
  · exact List.forall_mem_singleton.mpr (.piece hclose (List.forall_mem_nil _))

/-- **Items have spans of the kind**, if their first token has. -/
theorem gives_all_item {t : Token} (ht : G t.span) :
    Gives (G ·.span) (fun i => i.layout.All G) (item stop t) := by
  unfold item
  split
  · exact (gives_all_enumDecl hend hmerge ht).bind fun d hd => .pure hd
  · exact (gives_all_matchExpr hend hmerge ht).bind fun m hm => .pure hm
  · exact .fail _

end Grammar

end Reader

/-! ### Whole programs -/

/-- **Spans of programs are merged from spans of tokens.** -/
theorem Program.all_layouts {G : Span → Prop} (hmerge : ∀ s t, G s → G t → G (s.merge t))
    {stop : Token} (hend : stop.kind = .endOfInput) {ts : List Token} (hts : ∀ t ∈ ts, G t.span) :
    ∀ l ∈ (ofTokens stop ts).1.layouts, l.All G :=
  List.forall_mem_map.mpr
    (Program.forall_items (fun _ ht => Reader.gives_all_item hend hmerge ht) hts)

/-- **No piece of a program is empty.** -/
theorem Source.all_proper (source : Source) :
    ∀ l ∈ source.program.1.layouts, l.All Span.Proper := by
  refine Program.all_layouts (fun _ _ hs _ => hs.merge) rfl ?_
  rw [← source.map_token_leaves]
  exact List.forall_mem_map.mpr source.lined_leaves.proper

/-! ### The names of declarations -/

variable {source : Source}

/-- What stands behind a proper span begins behind its beginning. -/
theorem Span.Before.start_lt {s t : Span} (h : s.Before t) (hs : s.Proper) :
    s.start.offset < t.start.offset :=
  Nat.lt_of_lt_of_le hs h

/-- What lies inside two pieces, one behind the other, lies one behind the other. -/
theorem Span.Before.inside {s t s' t' : Span} (h : s.Before t) (hs : s.Contains s')
    (ht : t.Contains t') : s'.Before t' :=
  hs.stop_le.trans (Nat.le_trans h ht.start_le)

theorem Span.Contains.refl (s : Span) : s.Contains s :=
  ⟨Nat.le_refl _, Nat.le_refl _⟩

theorem Span.Contains.trans {s t u : Span} (hst : s.Contains t) (htu : t.Contains u) :
    s.Contains u :=
  ⟨hst.start_le.trans htu.start_le, htu.stop_le.trans hst.stop_le⟩

/-- All spans in a sound piece lie inside it. -/
theorem Layout.Sound.all_inside {l : Layout} (h : l.Sound source) : l.All l.span.Contains := by
  induction h with
  | name => exact .name (.refl _)
  | piece _ inside _ _ ih =>
    exact .piece (.refl _) fun p hp => (ih p hp).imp fun _ hs => (inside p hp).trans hs

/-- The names in the declaration of a constructor. -/
def CtorDecl.names (c : CtorDecl) : List Ident :=
  c.name :: c.field.toList

theorem CtorDecl.layout_eq (c : CtorDecl) : c.layout = .piece c.span (c.names.map .name) := rfl

theorem EnumDecl.names_eq (d : EnumDecl) :
    d.names = d.name :: d.ctors.flatMap CtorDecl.names := rfl

/-- If all spans of a constructor are of one kind, its names are at spans of this kind. -/
theorem CtorDecl.forall_names {G : Span → Prop} {c : CtorDecl} (h : c.layout.All G) :
    ∀ i ∈ c.names, G i.span := by
  rw [layout_eq] at h
  cases h with
  | piece _ hnames => exact fun i hi => (hnames (.name i) (List.mem_map_of_mem hi)).span

/-- If all spans of a declaration are of one kind, its names are at spans of this kind. -/
theorem EnumDecl.forall_names {G : Span → Prop} {d : EnumDecl} (h : d.layout.All G) :
    ∀ i ∈ d.names, G i.span := by
  cases h with
  | piece _ hparts =>
    obtain ⟨hname, hctors⟩ := List.forall_mem_cons.mp hparts
    rw [names_eq]
    refine List.forall_mem_cons.mpr ⟨hname.span, fun i hi => ?_⟩
    obtain ⟨c, hc, hi⟩ := List.mem_flatMap.mp hi
    exact CtorDecl.forall_names (hctors c.layout (List.mem_map_of_mem hc)) i hi

/-- The names of a constructor stand one behind the other. -/
theorem CtorDecl.ordered_names {c : CtorDecl} (h : c.layout.Sound source) :
    c.names.Pairwise fun i j => i.span.Before j.span := by
  rw [layout_eq] at h
  cases h with
  | piece _ _ ordered _ => rwa [List.pairwise_map] at ordered

/-- The names of a declaration stand one behind the other. -/
theorem EnumDecl.ordered_names {d : EnumDecl} (h : d.layout.Sound source) :
    d.names.Pairwise fun i j => i.span.Before j.span := by
  cases h with
  | piece _ _ ordered sound =>
    obtain ⟨hbehind, hordered⟩ := List.pairwise_cons.mp ordered
    have hsound : ∀ c ∈ d.ctors, c.layout.Sound source := fun c hc =>
      sound c.layout (List.mem_cons_of_mem _ (List.mem_map_of_mem hc))
    have hinside : ∀ c ∈ d.ctors, ∀ i ∈ c.names, c.span.Contains i.span := fun c hc =>
      CtorDecl.forall_names (hsound c hc).all_inside
    rw [names_eq]
    refine List.pairwise_cons.mpr ⟨fun i hi => ?_, ?_⟩
    · obtain ⟨c, hc, hi⟩ := List.mem_flatMap.mp hi
      exact Nat.le_trans (hbehind c.layout (List.mem_map_of_mem hc)) (hinside c hc i hi).start_le
    · -- within a constructor by its own layout, and between two by theirs
      refine List.pairwise_flatMap.mpr ⟨fun c hc => CtorDecl.ordered_names (hsound c hc), ?_⟩
      refine (List.pairwise_map.mp hordered).imp_of_mem fun {b c} hb hc hbc i hi j hj => ?_
      exact hbc.inside (hinside b hb i hi) (hinside c hc j hj)

namespace Source

/-- The declarations of a source are sound, and stand one behind the other. -/
theorem sound_enumDecls (source : Source) :
    (∀ d ∈ source.program.1.enumDecls, d.layout.Sound source ∧ d.layout.All Span.Proper) ∧
      source.program.1.enumDecls.Pairwise fun d e => d.span.Before e.span := by
  obtain ⟨hi, hrow⟩ := source.row_program.1
  refine ⟨fun d hd => ?_, List.pairwise_filterMap.mpr ?_⟩
  · obtain ⟨item, hitem, hd⟩ := List.mem_filterMap.mp hd
    cases item with
    | enumDecl e =>
      cases hd
      have hmem : d.layout ∈ source.program.1.layouts := List.mem_map_of_mem hitem
      exact ⟨hrow.sound _ hmem, source.all_proper _ hmem⟩
    | matchExpr m => cases hd
  · -- the matches in between are left out
    refine (List.pairwise_map.mp hrow.ordered).imp fun {a b} hab d hd e he => ?_
    cases a with
    | enumDecl _ =>
      cases b with
      | enumDecl _ =>
        cases hd
        cases he
        exact hab
      | matchExpr _ => cases he
    | matchExpr _ => cases hd

/-- **The names of declarations ascend.** Each begins behind all that are written before it. -/
theorem ascending_names (source : Source) :
    (source.program.1.enumDecls.flatMap EnumDecl.names).Pairwise
      fun i j => i.span.start.offset < j.span.start.offset := by
  obtain ⟨hdecls, hordered⟩ := source.sound_enumDecls
  have hinside : ∀ d ∈ source.program.1.enumDecls, ∀ i ∈ d.names, d.span.Contains i.span :=
    fun d hd => EnumDecl.forall_names (hdecls d hd).1.all_inside
  have hbefore : (source.program.1.enumDecls.flatMap EnumDecl.names).Pairwise
      fun i j => i.span.Before j.span := by
    refine List.pairwise_flatMap.mpr ⟨fun d hd => EnumDecl.ordered_names (hdecls d hd).1, ?_⟩
    refine hordered.imp_of_mem fun {d e} hd he hde i hi j hj => ?_
    exact hde.inside (hinside d hd i hi) (hinside e he j hj)
  -- one behind the other is one start behind the other, as no name is empty
  refine hbefore.imp_of_mem fun {i j} hi _ hij => hij.start_lt ?_
  obtain ⟨d, hd, hi⟩ := List.mem_flatMap.mp hi
  exact EnumDecl.forall_names (hdecls d hd).2 i hi

end Source

end MatchCheck
