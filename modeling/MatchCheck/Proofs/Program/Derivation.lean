import MatchCheck.Proofs.Program.Reading

/-!
# The grammar of programs is what is read

The equivalences of the combinators and of terms are carried on to declarations, bodies, arms,
matches and items, one for each rule of the grammar. Three rules need an argument of their own:

* between two constructors without a comma the reader compares lines and the grammar asks for the
  end of a line, which is the same for leaves that stand one behind the other (`ctorEnds_iff`);
* the body of an arm is skipped by counting braces, and the grammar asks for balanced leaves
  (`closeBlock_append`, `exists_of_closeBlock`);
* further field types of a constructor are reported and not refused, so that only a reading without
  a note is a derivation (`reads_fields`).

`Source.program_iff_derivation` is the result for whole sources.
-/

namespace MatchCheck

/-- A constructor ends where the rest begins. A bare name does not if a parenthesis follows. -/
def CtorTree.Ends (c : CtorTree) (rest : List Leaf) : Prop :=
  c.fields = none → BeginsNot .leftParen rest

/-- The last leaf of a constructor is its closing parenthesis, or its name. -/
theorem CtorTree.exists_leaves_eq_concat (c : CtorTree) : ∃ ls, c.leaves = ls ++ [c.last] := by
  obtain ⟨name, fields⟩ := c
  cases fields with
  | none => exact ⟨[], rfl⟩
  | some f =>
    refine ⟨name.leaf :: f.opening.leaf :: FieldTree.inside f.field, ?_⟩
    simp [leaves, last, FieldTree.leaves]

/-- The place where a constructor ends is the place where its last leaf ends. -/
theorem CtorTree.stop_decl (c : CtorTree) (h : Leaf.Lined c.leaves) :
    c.decl.span.stop = c.last.span.stop := by
  obtain ⟨name, fields⟩ := c
  cases fields with
  | none => rfl
  | some f =>
    -- the parenthesis ends behind the name, so that the span ends with it
    have hlt : name.span.stop.offset < f.closing.span.stop.offset :=
      Leaf.Lined.offset_stop_lt h (by simp [FieldTree.leaves])
    change (name.span.merge f.closing.span).stop = _
    rw [Span.merge, if_neg (Nat.not_le.mpr hlt)]
    rfl

namespace Reader

variable {stop : Token} {ls rest : List Leaf}

/-! ### Constructors -/

/-- No further field: either no comma follows, or the parenthesis closes right behind it. -/
theorem reads_extraField_none (hstop : stop.kind = .endOfInput) :
    Reads (extraField stop) ls none rest ↔
      (∃ (comma : Terminal .comma) (closing : Terminal .rightParen) (mid : List Leaf),
        ls = comma.leaf :: rest ∧ rest = closing.leaf :: mid) ∨
        (BeginsNot .comma ls ∧ rest = ls) := by
  have hcomma : stop.kind ≠ .comma := by simp [hstop]
  have hparen : stop.kind ≠ .rightParen := by simp [hstop]
  refine (reads_ifNext hcomma).trans (or_congr ?_ (and_congr_right fun _ => ?_))
  · constructor
    · rintro ⟨comma, mid, rfl, h⟩
      -- a comma with something else behind it would be read as a further field
      rcases (reads_ifNext hparen).mp (reads_skip_bind.mp h) with
        ⟨closing, mid, rfl, hpure⟩ | ⟨-, hident⟩
      · obtain ⟨-, rfl⟩ := reads_pure.mp hpure
        exact ⟨comma, closing, mid, rfl, rfl⟩
      · obtain ⟨i, last, -, hpure⟩ := reads_bind.mp hident
        cases (reads_pure.mp hpure).1
    · rintro ⟨comma, closing, mid, rfl, rfl⟩
      refine ⟨comma, _, rfl, reads_skip_bind.mpr ?_⟩
      exact (reads_ifNext hparen).mpr (.inl ⟨closing, mid, rfl, reads_self _ _⟩)
  · rw [reads_pure]
    simp

/-- Behind the field of a constructor stands at most a comma. Further fields are reported, so that
they are not read without an error. -/
theorem reads_extraFields (hstop : stop.kind = .endOfInput) {ctor : Ident} {field i? : Option Ident}
    {closing : Terminal .rightParen} :
    Reads (extraFields stop ctor field) ls i? (closing.leaf :: rest) ↔
      i? = field ∧ ∃ comma? : Option (Terminal .comma),
        ls = Terminal.optional comma? ++ closing.leaf :: rest := by
  refine reads_bind.trans ?_
  constructor
  · rintro ⟨is, mid, hmany, h⟩
    cases is with
    | nil =>
      obtain ⟨rfl, rfl⟩ := reads_pure.mp h
      refine ⟨rfl, ?_⟩
      rcases (reads_extraField_none hstop).mp (reads_many_nil.mp hmany) with
        ⟨comma, _, _, rfl, -⟩ | ⟨-, rfl⟩
      · exact ⟨some comma, rfl⟩
      · exact ⟨none, rfl⟩
    -- a further field is noted, and a reading without errors has no notes
    | cons first others =>
      obtain ⟨u, last, hnote, -⟩ := reads_bind.mp h
      exact absurd hnote not_reads_note
  · rintro ⟨rfl, comma?, rfl⟩
    refine ⟨[], _, reads_many_nil.mpr ((reads_extraField_none hstop).mpr ?_), reads_self _ _⟩
    cases comma? with
    | none => exact .inr ⟨closing.beginsNot (by decide) rest, rfl⟩
    | some comma => exact .inl ⟨comma, closing, rest, rfl, rfl⟩

/-- The inside of a constructor's parentheses. -/
theorem reads_fields (hstop : stop.kind = .endOfInput) {ctor : Ident} {i? : Option Ident}
    {closing : Terminal .rightParen} :
    Reads (fields stop ctor) ls i? (closing.leaf :: rest) ↔
      ∃ field, ls = FieldTree.inside field ++ closing.leaf :: rest ∧
        i? = field.map (·.1.ident) := by
  have hparen : stop.kind ≠ .rightParen := by simp [hstop]
  refine (reads_next_bind hparen).trans ?_
  constructor
  · -- from the reader to the tree: the parenthesis closes at once, or a type comes first
    rintro (⟨t, mid, rfl, h⟩ | ⟨-, h⟩)
    · obtain ⟨field, last, hpure, hmore⟩ := reads_bind.mp h
      obtain ⟨rfl, rfl⟩ := reads_pure.mp hpure
      obtain ⟨rfl, comma?, hls⟩ := (reads_extraFields hstop).mp hmore
      cases comma? with
      | none => exact ⟨none, hls, rfl⟩
      | some comma => exact absurd hls (Terminal.cons_ne (by decide))
    · obtain ⟨field, last, hfield, hmore⟩ := reads_bind.mp h
      obtain ⟨i, hident, rfl⟩ := reads_map.mp hfield
      obtain ⟨type, rfl, rfl⟩ := (reads_ident hstop).mp hident
      obtain ⟨rfl, comma?, rfl⟩ := (reads_extraFields hstop).mp hmore
      exact ⟨some (type, comma?), rfl, rfl⟩
  · rintro ⟨field, rfl, rfl⟩
    rcases field with _ | ⟨type, comma?⟩
    · refine .inl ⟨closing, rest, rfl, (reads_self _ _).bind ?_⟩
      exact (reads_extraFields hstop).mpr ⟨rfl, none, rfl⟩
    · have hident := reads_ident_cons hstop .fieldType type
        (Terminal.optional comma? ++ closing.leaf :: rest)
      exact .inr ⟨type.beginsNot (by decide) _,
        (reads_map.mpr ⟨_, hident, rfl⟩).bind ((reads_extraFields hstop).mpr ⟨rfl, comma?, rfl⟩)⟩

/-- **Constructors.** A constructor is read exactly if a tree derives what is taken. -/
theorem reads_ctorDecl (hstop : stop.kind = .endOfInput) {c : CtorDecl} :
    Reads (ctorDecl stop) ls c rest ↔
      ∃ t : CtorTree, ls = t.leaves ++ rest ∧ c = t.decl ∧ t.Ends rest := by
  have hopening : stop.kind ≠ .leftParen := by simp [hstop]
  have hclosing : stop.kind ≠ .rightParen := by simp [hstop]
  rw [ctorDecl, reads_bind]
  constructor
  · rintro ⟨i, mid, hident, h⟩
    obtain ⟨name, rfl, rfl⟩ := (reads_ident hstop).mp hident
    rcases (reads_ifNext hopening).mp h with ⟨opening, mid, rfl, h⟩ | ⟨hnot, h⟩
    · obtain ⟨field, last, hfields, h⟩ := reads_bind.mp (reads_skip_bind.mp h)
      obtain ⟨t, last', hclose, hpure⟩ := reads_bind.mp h
      obtain ⟨closing, rfl, rfl⟩ := (reads_token hclosing).mp hclose
      obtain ⟨rfl, rfl⟩ := reads_pure.mp hpure
      obtain ⟨field, rfl, rfl⟩ := (reads_fields hstop).mp hfields
      refine ⟨⟨name, some ⟨opening, field, closing⟩⟩, ?_, rfl, nofun⟩
      simp [CtorTree.leaves, FieldTree.leaves]
    · obtain ⟨rfl, rfl⟩ := reads_pure.mp h
      exact ⟨⟨name, none⟩, rfl, rfl, fun _ => hnot⟩
  · -- without fields no parenthesis may follow, or it would be read as theirs
    rintro ⟨⟨name, fields?⟩, rfl, rfl, hends⟩
    cases fields? with
    | none =>
      refine ⟨_, _, reads_ident_cons hstop .ctorName name rest, (reads_ifNext hopening).mpr ?_⟩
      exact .inr ⟨hends rfl, reads_self _ _⟩
    | some f =>
      obtain ⟨opening, field, closing⟩ := f
      have hfields : Reads (fields stop name.ident)
          (FieldTree.inside field ++ closing.leaf :: rest) (field.map (·.1.ident))
          (closing.leaf :: rest) := (reads_fields hstop).mpr ⟨field, rfl, rfl⟩
      have hclose := reads_token_cons hclosing closing rest
      simp only [CtorTree.leaves, FieldTree.leaves, List.cons_append, List.append_assoc,
        List.nil_append]
      refine ⟨_, _, reads_ident_cons hstop .ctorName name _, (reads_ifNext hopening).mpr ?_⟩
      exact .inl ⟨opening, _, rfl,
        reads_skip_bind.mpr (hfields.bind (hclose.bind (reads_self _ _)))⟩

/-- What divides a constructor from the next. -/
theorem reads_separator (hstop : stop.kind = .endOfInput) {ctor : CtorDecl} {u : Unit} :
    Reads (separator stop ctor) ls u rest ↔
      (∃ comma : Terminal .comma, ls = comma.leaf :: rest) ∨
        (BeginsNot .comma ls ∧ rest = ls ∧
          ((∃ (closing : Terminal .rightBrace) (mid : List Leaf), ls = closing.leaf :: mid) ∨
            ctor.span.stop.line < ((ls.map Leaf.token).headD stop).span.start.line)) := by
  have hcomma : stop.kind ≠ .comma := by simp [hstop]
  have hbrace : stop.kind ≠ .rightBrace := by simp [hstop]
  rw [separator, reads_peek_bind]
  rcases beginsNot_or .comma ls with ⟨comma, mid, rfl⟩ | hnot
  · rw [if_pos (by exact comma.kind_eq), reads_skip]
    constructor
    · rintro rfl
      exact .inl ⟨comma, rfl⟩
    · rintro (⟨comma', heq⟩ | ⟨hnot, -⟩)
      · exact (Terminal.cons_inj heq).2.symm
      · exact absurd hnot not_beginsNot
  · rw [if_neg (kind_headD_ne hcomma hnot)]
    -- without a comma it takes the closing brace or a new line
    have hcomma' : ¬ ∃ comma : Terminal .comma, ls = comma.leaf :: rest := by
      rintro ⟨comma, rfl⟩
      exact absurd hnot not_beginsNot
    rw [or_iff_right hcomma', and_iff_right hnot]
    rw [exists_terminal_iff hbrace]
    split_ifs with h
    · have hdivided : ((ls.map Leaf.token).headD stop).kind = .rightBrace ∨
          ctor.span.stop.line < ((ls.map Leaf.token).headD stop).span.start.line := by
        simpa using h
      rw [reads_pure]
      exact ⟨fun ⟨_, hrest⟩ => ⟨hrest, hdivided⟩, fun ⟨hrest, _⟩ => ⟨rfl, hrest⟩⟩
    · simp only [not_reads_fail, false_iff]
      rintro ⟨-, hdivided⟩
      exact h (by simpa using hdivided)

/-- A constructor without a comma behind it is divided from what follows. -/
def CtorEnds (stop : Token) (c : CtorTree × Option (Terminal .comma)) (rest : List Leaf) : Prop :=
  c.2 = none → c.1.Ends rest ∧ BeginsNot .comma rest ∧
    ((∃ (closing : Terminal .rightBrace) (mid : List Leaf), rest = closing.leaf :: mid) ∨
      c.1.decl.span.stop.line < ((rest.map Leaf.token).headD stop).span.start.line)

/-- A round reads a constructor and what divides it from the next. -/
theorem reads_ctorRound_some (hstop : stop.kind = .endOfInput) {c : CtorDecl} :
    Reads (ctorRound stop) ls (some c) rest ↔
      ∃ t, ls = EnumTree.roundLeaves t ++ rest ∧ c = t.1.decl ∧ CtorEnds stop t rest := by
  have hbrace : stop.kind ≠ .rightBrace := by simp [hstop]
  refine (reads_ifNext hbrace).trans ?_
  constructor
  · rintro (⟨-, -, -, h⟩ | ⟨-, h⟩)
    · cases (reads_pure.mp h).1
    · -- from the reader to the tree: the constructor first, then what divides it from the next
      obtain ⟨c', mid, hctor, h⟩ := reads_bind.mp h
      obtain ⟨u, last, hseparator, hpure⟩ := reads_bind.mp h
      obtain ⟨hc, rfl⟩ := reads_pure.mp hpure
      cases hc
      obtain ⟨t, rfl, rfl, hends⟩ := (reads_ctorDecl hstop).mp hctor
      rcases (reads_separator hstop).mp hseparator with ⟨comma, rfl⟩ | ⟨hnot, rfl, hdivided⟩
      · exact ⟨(t, some comma), by simp [EnumTree.roundLeaves, Terminal.optional], rfl, nofun⟩
      · exact ⟨(t, none), by simp [EnumTree.roundLeaves, Terminal.optional], rfl,
          fun _ => ⟨hends, hnot, hdivided⟩⟩
  · rintro ⟨⟨t, comma?⟩, rfl, rfl, hends⟩
    right
    rw [EnumTree.roundLeaves, List.append_assoc]
    refine ⟨t.beginsNot_append (by decide) _, ?_⟩
    cases comma? with
    | none =>
      obtain ⟨hends, hnot, hdivided⟩ := hends rfl
      have hctor := (reads_ctorDecl hstop).mpr ⟨t, rfl, rfl, hends⟩
      have hseparator : Reads (separator stop t.decl) rest () rest :=
        (reads_separator hstop).mpr (.inr ⟨hnot, rfl, hdivided⟩)
      exact hctor.bind (hseparator.bind (reads_self _ _))
    | some comma =>
      have hends : t.Ends (comma.leaf :: rest) := fun _ => comma.beginsNot (by decide) rest
      have hctor := (reads_ctorDecl hstop).mpr ⟨t, rfl, rfl, hends⟩
      have hseparator : Reads (separator stop t.decl) (comma.leaf :: rest) () rest :=
        (reads_separator hstop).mpr (.inl ⟨comma, rfl⟩)
      exact hctor.bind (hseparator.bind (reads_self _ _))

/-- The rounds are done at the closing brace, which stays. -/
theorem reads_ctorRound_none (hstop : stop.kind = .endOfInput) :
    Reads (ctorRound stop) ls none rest ↔
      (∃ (closing : Terminal .rightBrace) (mid : List Leaf), ls = closing.leaf :: mid) ∧
        rest = ls := by
  have hbrace : stop.kind ≠ .rightBrace := by simp [hstop]
  refine (reads_ifNext hbrace).trans ?_
  constructor
  · rintro (⟨closing, mid, hls, h⟩ | ⟨-, h⟩)
    · exact ⟨⟨closing, mid, hls⟩, (reads_pure.mp h).2⟩
    · -- a round that reads a constructor has a result
      obtain ⟨c, mid, -, h⟩ := reads_bind.mp h
      obtain ⟨u, last, -, hpure⟩ := reads_bind.mp h
      cases (reads_pure.mp hpure).1
  · rintro ⟨⟨closing, mid, hls⟩, rfl⟩
    exact .inl ⟨closing, mid, hls, reads_self _ _⟩

/-- All constructors of a declaration, up to its closing brace. -/
theorem reads_ctorRounds (hstop : stop.kind = .endOfInput) {cs : List CtorDecl} :
    Reads (many (ctorRound stop)) ls cs rest ↔
      ∃ ts mid, ls = EnumTree.ctorLeaves ts ++ mid ∧ cs = ts.map (·.1.decl) ∧
        ((∃ (closing : Terminal .rightBrace) (mid' : List Leaf), mid = closing.leaf :: mid') ∧
          rest = mid) ∧ EachEnds EnumTree.roundLeaves (CtorEnds stop) mid ts := by
  refine reads_many EnumTree.roundLeaves (fun t => t.1.decl) (CtorEnds stop)
    (fun ls mid => (∃ (closing : Terminal .rightBrace) (mid' : List Leaf),
      ls = closing.leaf :: mid') ∧ mid = ls) (fun t h => ?_)
    (fun ls c mid => reads_ctorRound_some hstop) (fun ls mid => reads_ctorRound_none hstop)
  exact t.1.leaves_ne_nil (List.append_eq_nil_iff.mp h).1

/-! ### Declarations -/

/-- The closing brace divides the last constructor from what follows. -/
theorem ctorEnds_of_closing {c : CtorTree × Option (Terminal .comma)}
    (closing : Terminal .rightBrace) : CtorEnds stop c (closing.leaf :: rest) := fun _ =>
  ⟨fun _ => closing.beginsNot (by decide) rest, closing.beginsNot (by decide) rest,
    .inl ⟨closing, rest, rfl⟩⟩

/-- Between two constructors the lines of their leaves tell whether a line ends. -/
theorem ctorEnds_iff {c d : CtorTree × Option (Terminal .comma)}
    (h : Leaf.Lined (EnumTree.roundLeaves c ++ (EnumTree.roundLeaves d ++ rest))) :
    CtorEnds stop c (EnumTree.roundLeaves d ++ rest) ↔
      (c.2 = none → c.1.last.lastInLine = true) := by
  obtain ⟨ctor, comma?⟩ := c
  refine forall_congr' fun hnone => ?_
  obtain rfl : comma? = none := hnone
  -- The reader looks from where the constructor ends to the name behind it. These are the places of
  -- two neighbouring leaves.
  obtain ⟨ds, hds⟩ := d.1.leaves_eq_cons
  obtain ⟨cs, hcs⟩ := ctor.exists_leaves_eq_concat
  have hlined : Leaf.Lined
      (ctor.leaves ++ d.1.name.leaf :: (ds ++ Terminal.optional d.2 ++ rest)) := by
    simpa [EnumTree.roundLeaves, Terminal.optional, hds] using h
  have hstop := ctor.stop_decl hlined.left
  rw [hcs, List.append_assoc] at hlined
  rw [EnumTree.roundLeaves, hds, hlined.lastInLine_iff]
  constructor
  · rintro ⟨-, -, ⟨closing, mid, heq⟩ | hline⟩
    · exact absurd heq (Terminal.cons_ne (by decide))
    · rwa [hstop] at hline
  · intro hline
    refine ⟨fun _ => d.1.name.beginsNot (by decide) _, d.1.name.beginsNot (by decide) _, .inr ?_⟩
    rwa [hstop]

/-- **Lines in the reader are lines in the tree.** Each constructor ends as the reader asks exactly
if the tree is divided. -/
theorem eachEnds_iff_divided {ctors : List (CtorTree × Option (Terminal .comma))}
    {closing : Terminal .rightBrace}
    (h : Leaf.Lined (EnumTree.ctorLeaves ctors ++ closing.leaf :: rest)) :
    EachEnds EnumTree.roundLeaves (CtorEnds stop) (closing.leaf :: rest) ctors ↔
      EnumTree.Divided ctors := by
  -- on the constructors: each is compared with the next one, the last with the brace
  induction ctors with
  | nil => simp [EachEnds, EnumTree.Divided]
  | cons c ctors ih =>
    have htail : Leaf.Lined (EnumTree.ctorLeaves ctors ++ closing.leaf :: rest) := by
      rw [EnumTree.ctorLeaves, List.flatMap_cons, List.append_assoc] at h
      exact h.right
    rw [EachEnds, ih htail]
    cases ctors with
    | nil => simp [EnumTree.Divided, ctorEnds_of_closing]
    | cons d ctors =>
      -- `Divided` does not ask this of the last constructor, and `c` is not the last one
      have hends : CtorEnds stop c
          (EnumTree.roundLeaves d ++ (EnumTree.ctorLeaves ctors ++ closing.leaf :: rest)) ↔
            (c.2 = none → c.1.last.lastInLine = true) :=
        ctorEnds_iff (by simpa [EnumTree.ctorLeaves] using h)
      rw [EnumTree.ctorLeaves] at hends
      rw [List.flatMap_cons, List.append_assoc, hends]
      simp [EnumTree.Divided]

/-- **Declarations.** -/
theorem reads_enumDecl (hstop : stop.kind = .endOfInput) {keyword : Terminal .enumWord}
    (h : Leaf.Lined ls) {e : EnumDecl} :
    Reads (enumDecl stop keyword.span) ls e rest ↔
      ∃ t : EnumTree, keyword.leaf :: ls = t.leaves ++ rest ∧ EnumTree.Divided t.ctors ∧
        e = t.decl := by
  have hopening : stop.kind ≠ .leftBrace := by simp [hstop]
  have hclosing : stop.kind ≠ .rightBrace := by simp [hstop]
  rw [enumDecl, reads_bind]
  constructor
  · rintro ⟨i, mid, hident, h₁⟩
    -- step by step through the rule, each step by what it reads
    obtain ⟨t, mid₁, hopen, h₂⟩ := reads_bind.mp h₁
    obtain ⟨cs, mid₂, hctors, h₃⟩ := reads_bind.mp h₂
    obtain ⟨u, mid₃, hclose, hpure⟩ := reads_bind.mp h₃
    obtain ⟨name, rfl, rfl⟩ := (reads_ident hstop).mp hident
    obtain ⟨opening, rfl, rfl⟩ := (reads_token hopening).mp hopen
    obtain ⟨closing, rfl, rfl⟩ := (reads_token hclosing).mp hclose
    obtain ⟨rfl, rfl⟩ := reads_pure.mp hpure
    obtain ⟨ctors, last, rfl, rfl, ⟨-, rfl⟩, hends⟩ := (reads_ctorRounds hstop).mp hctors
    refine ⟨⟨keyword, name, opening, ctors, closing⟩, by simp [EnumTree.leaves],
      (eachEnds_iff_divided h.tail.tail).mp hends, rfl⟩
  · rintro ⟨⟨keyword', name, opening, ctors, closing⟩, hls, hdivided, rfl⟩
    simp only [EnumTree.leaves, List.cons_append, List.append_assoc, List.nil_append] at hls
    obtain ⟨rfl, rfl⟩ := Terminal.cons_inj hls
    have hctors : Reads (many (ctorRound stop)) (EnumTree.ctorLeaves ctors ++ closing.leaf :: rest)
        (ctors.map (·.1.decl)) (closing.leaf :: rest) :=
      (reads_ctorRounds hstop).mpr ⟨ctors, _, rfl, rfl, ⟨⟨closing, rest, rfl⟩, rfl⟩,
        (eachEnds_iff_divided h.tail.tail).mpr hdivided⟩
    refine ⟨_, _, reads_ident_cons hstop .typeName name _, ?_⟩
    exact (reads_token_cons hopening opening _).bind
      (hctors.bind ((reads_token_cons hclosing closing rest).bind (reads_self _ _)))

end Reader

/-! ### Bodies -/

/-- Kinds that close `depth` blocks which were opened before, and every block they open. -/
def Closes : Nat → List TokenKind → Prop
  | 0, ks => Balanced ks
  | depth + 1, ks => ∃ inner outer, ks = inner ++ .rightBrace :: outer ∧ Balanced inner ∧
      Closes depth outer

namespace Closes

variable {k : TokenKind} {ks : List TokenKind}

/-- An opening brace is one more block to close. -/
theorem leftBrace_iff {depth : Nat} : Closes depth (.leftBrace :: ks) ↔ Closes (depth + 1) ks := by
  cases depth with
  | zero =>
    constructor
    · intro h
      cases h with
      | plain hleft => exact absurd rfl hleft
      | braces hinner houter => exact ⟨_, _, rfl, hinner, houter⟩
    · rintro ⟨inner, outer, rfl, hinner, houter⟩
      exact .braces hinner houter
  | succ depth =>
    constructor
    · rintro ⟨inner, outer, heq, hinner, houter⟩
      cases hinner with
      | nil => cases (List.cons.inj heq).1
      | plain hleft => exact absurd (List.cons.inj heq).1.symm hleft
      | @braces xs ys hxs hys =>
        -- the partner of the first brace divides what `inner` was
        obtain rfl := (List.cons.inj heq).2
        exact ⟨xs, ys ++ .rightBrace :: outer, by simp, hxs, ys, outer, rfl, hys, houter⟩
    · rintro ⟨xs, _, rfl, hxs, ys, outer, rfl, hys, houter⟩
      exact ⟨.leftBrace :: (xs ++ .rightBrace :: ys), outer, by simp, .braces hxs hys, houter⟩

/-- A closing brace is one less. -/
theorem rightBrace_iff {depth : Nat} :
    Closes (depth + 1) (.rightBrace :: ks) ↔ Closes depth ks := by
  constructor
  · rintro ⟨inner, outer, heq, hinner, houter⟩
    -- nothing balanced begins with a closing brace
    cases hinner with
    | nil =>
      obtain rfl := (List.cons.inj heq).2
      exact houter
    | plain _ hright => exact absurd (List.cons.inj heq).1.symm hright
    | braces => cases (List.cons.inj heq).1
  · intro h
    exact ⟨[], ks, rfl, .nil, h⟩

/-- With no block open, a closing brace closes nothing. -/
theorem not_zero_rightBrace : ¬ Closes 0 (.rightBrace :: ks) := by
  intro h
  cases h with
  | plain _ hright => exact absurd rfl hright

/-- Anything else opens and closes nothing. -/
theorem plain_iff {depth : Nat} (hleft : k ≠ .leftBrace) (hright : k ≠ .rightBrace) :
    Closes depth (k :: ks) ↔ Closes depth ks := by
  -- at depth zero no brace is to be closed, above it the first of several parts goes on
  cases depth with
  | zero =>
    constructor
    · intro h
      cases h with
      | plain _ _ hks => exact hks
      | braces => exact absurd rfl hleft
    · intro h
      exact .plain hleft hright h
  | succ depth =>
    constructor
    · rintro ⟨inner, outer, heq, hinner, houter⟩
      cases hinner with
      | nil => exact absurd (List.cons.inj heq).1 hright
      | plain _ _ hks =>
        obtain ⟨-, rfl⟩ := List.cons.inj heq
        exact ⟨_, outer, rfl, hks, houter⟩
      | braces => exact absurd (List.cons.inj heq).1 hleft
    · rintro ⟨inner, outer, rfl, hinner, houter⟩
      exact ⟨k :: inner, outer, rfl, .plain hleft hright hinner, houter⟩

end Closes

namespace Reader

variable {stop : Token} {ls rest : List Leaf}

section CloseBlock

variable {opening : Span} {depth : Nat} {t : Token} {ts : List Token}

theorem closeBlock_of_leftBrace (h : t.kind = .leftBrace) :
    closeBlock stop opening depth (t :: ts) = closeBlock stop opening (depth + 1) ts := by
  simp [closeBlock, h]

theorem closeBlock_of_rightBrace (h : t.kind = .rightBrace) :
    closeBlock stop opening (depth + 1) (t :: ts) = closeBlock stop opening depth ts := by
  simp [closeBlock, h]

theorem closeBlock_zero_of_rightBrace (h : t.kind = .rightBrace) :
    closeBlock stop opening 0 (t :: ts) = ⟨[], ts, .ok (opening.merge t.span)⟩ := by
  simp [closeBlock, h]

theorem closeBlock_of_plain (hleft : t.kind ≠ .leftBrace) (hright : t.kind ≠ .rightBrace) :
    closeBlock stop opening depth (t :: ts) = closeBlock stop opening depth ts := by
  simp [closeBlock, hright]

/-- The brace that closes the outermost block is found behind leaves that close every other one. -/
theorem closeBlock_append {inside : List Leaf} {closing : Terminal .rightBrace}
    (h : Closes depth (inside.map Leaf.kind)) :
    closeBlock stop opening depth ((inside ++ closing.leaf :: rest).map Leaf.token) =
      ⟨[], rest.map Leaf.token, .ok (opening.merge closing.span)⟩ := by
  -- leaf by leaf, with as many blocks open as the braces so far say
  induction inside generalizing depth with
  | nil =>
    cases depth with
    | zero => exact closeBlock_zero_of_rightBrace closing.kind_eq
    | succ depth =>
      obtain ⟨inner, outer, heq, -⟩ := h
      cases inner <;> cases heq
  | cons l inside ih =>
    rw [List.map_cons] at h
    rw [List.cons_append, List.map_cons]
    by_cases hleft : l.kind = .leftBrace
    · rw [hleft] at h
      rw [closeBlock_of_leftBrace hleft, ih (Closes.leftBrace_iff.mp h)]
    by_cases hright : l.kind = .rightBrace
    · rw [hright] at h
      cases depth with
      | zero => exact absurd h Closes.not_zero_rightBrace
      | succ depth => rw [closeBlock_of_rightBrace hright, ih (Closes.rightBrace_iff.mp h)]
    · rw [closeBlock_of_plain hleft hright, ih ((Closes.plain_iff hleft hright).mp h)]

/-- And the other way round: where the reader stops, all other blocks have been closed. -/
theorem exists_of_closeBlock {ls : List Leaf} {r : Reply Span} {span : Span}
    (h : closeBlock stop opening depth (ls.map Leaf.token) = r) (hspan : r.result = .ok span) :
    ∃ (inside : List Leaf) (closing : Terminal .rightBrace) (rest : List Leaf),
      ls = inside ++ closing.leaf :: rest ∧ Closes depth (inside.map Leaf.kind) ∧
        r.rest = rest.map Leaf.token ∧ span = opening.merge closing.span := by
  -- the reader goes past every leaf up to the brace that closes the outermost block
  induction ls generalizing depth with
  | nil =>
    subst h
    cases hspan
  | cons l ls ih =>
    rw [List.map_cons] at h
    by_cases hleft : l.kind = .leftBrace
    · rw [closeBlock_of_leftBrace hleft] at h
      obtain ⟨inside, closing, rest, rfl, hcloses, hrest⟩ := ih h
      refine ⟨l :: inside, closing, rest, rfl, ?_, hrest⟩
      rw [List.map_cons, hleft]
      exact Closes.leftBrace_iff.mpr hcloses
    by_cases hright : l.kind = .rightBrace
    · cases depth with
      | zero =>
        rw [closeBlock_zero_of_rightBrace hright] at h
        subst h
        exact ⟨[], ⟨l, hright⟩, ls, rfl, .nil, rfl, (Except.ok.inj hspan).symm⟩
      | succ depth =>
        rw [closeBlock_of_rightBrace hright] at h
        obtain ⟨inside, closing, rest, rfl, hcloses, hrest⟩ := ih h
        refine ⟨l :: inside, closing, rest, rfl, ?_, hrest⟩
        rw [List.map_cons, hright]
        exact Closes.rightBrace_iff.mpr hcloses
    · rw [closeBlock_of_plain hleft hright] at h
      obtain ⟨inside, closing, rest, rfl, hcloses, hrest⟩ := ih h
      exact ⟨l :: inside, closing, rest, rfl, (Closes.plain_iff hleft hright).mpr hcloses, hrest⟩

end CloseBlock

/-- **Bodies.** A body is read exactly if it is balanced leaves between braces. -/
theorem reads_block (hstop : stop.kind = .endOfInput) {span : Span} :
    Reads (block stop) ls span rest ↔ ∃ b : BlockTree, ls = b.leaves ++ rest ∧ span = b.span := by
  have hopening : stop.kind ≠ .leftBrace := by simp [hstop]
  rw [block, reads_bind]
  constructor
  · rintro ⟨t, mid, hopen, hrun, hsuffix⟩
    obtain ⟨opening, rfl, rfl⟩ := (reads_token hopening).mp hopen
    obtain ⟨inside, closing, last, rfl, hcloses, hrest, rfl⟩ := exists_of_closeBlock hrun rfl
    -- the reader gives tokens back, and `rest` is an end of the leaves that has these tokens
    have hlength : rest.length = last.length := by simpa using congrArg List.length hrest
    have hlast : last <:+ inside ++ closing.leaf :: last :=
      (List.suffix_cons closing.leaf last).trans (List.suffix_append inside _)
    obtain rfl := (List.suffix_of_suffix_length_le hsuffix hlast hlength.le).eq_of_length hlength
    exact ⟨⟨opening, inside, hcloses, closing⟩, by simp [BlockTree.leaves], rfl⟩
  · rintro ⟨⟨opening, inside, hbalanced, closing⟩, rfl, rfl⟩
    simp only [BlockTree.leaves, List.cons_append, List.append_assoc, List.nil_append]
    refine ⟨_, _, reads_token_cons hopening opening _, closeBlock_append hbalanced, ?_⟩
    exact (List.suffix_cons closing.leaf rest).trans (List.suffix_append inside _)

/-! ### Arms and matches -/

/-- The commas behind an arm are all that follow. -/
def ArmEnds (a : ArmTree) (rest : List Leaf) : Prop :=
  a.Shallow ∧ a.Divided ∧ (a.commas = [] → BeginsNot .comma rest)

/-- **Arms.** An arm is read exactly if a shallow pattern, an arrow and a body derive what is taken.
-/
theorem reads_arm (hstop : stop.kind = .endOfInput) {a : Arm} :
    Reads (arm stop) ls a rest ↔
      ∃ (pattern : TermTree .pattern) (arrow : Terminal .fatArrow) (body : BlockTree),
        ls = pattern.leaves ++ arrow.leaf :: (body.leaves ++ rest) ∧ pattern.depth ≤ maxNesting ∧
          a = (ArmTree.mk pattern arrow body []).arm := by
  have harrow : stop.kind ≠ .fatArrow := by simp [hstop]
  have hpattern := readsTerms_term hstop .pattern maxNesting
  rw [arm, reads_bind]
  constructor
  · rintro ⟨p, mid, hp, h₁⟩
    obtain ⟨t, mid₁, hfat, h₂⟩ := reads_bind.mp h₁
    obtain ⟨span, mid₂, hbody, hpure⟩ := reads_bind.mp h₂
    obtain ⟨pattern, hdepth, rfl, rfl, -⟩ := (hpattern _ _ _).mp hp
    obtain ⟨arrow, rfl, rfl⟩ := (reads_token harrow).mp hfat
    obtain ⟨body, rfl, rfl⟩ := (reads_block hstop).mp hbody
    obtain ⟨rfl, rfl⟩ := reads_pure.mp hpure
    exact ⟨pattern, arrow, body, rfl, hdepth, rfl⟩
  · rintro ⟨pattern, arrow, body, rfl, hdepth, rfl⟩
    -- an arrow follows the pattern, so the pattern is not read any further
    have hends : pattern.Ends (arrow.leaf :: (body.leaves ++ rest)) :=
      pattern.ends_of_beginsNot (arrow.beginsNot (by decide) _)
    have hp := (hpattern _ _ _).mpr ⟨pattern, hdepth, rfl, rfl, hends⟩
    have hbody : Reads (block stop) (body.leaves ++ rest) body.span rest :=
      (reads_block hstop).mpr ⟨body, rfl, rfl⟩
    exact ⟨_, _, hp, (reads_token_cons harrow arrow _).bind (hbody.bind (reads_self _ _))⟩

/-- A term does not begin like the end of the arms. -/
theorem not_ends_arms (t : TermTree .pattern) (ls : List Leaf) :
    ¬ (decide ((((t.leaves ++ ls).map Leaf.token).headD stop).kind = .rightBrace) ||
      decide ((((t.leaves ++ ls).map Leaf.token).headD stop).kind = .endOfInput)) = true := by
  rcases t.exists_leaves_eq_cons with ⟨head, ms, h⟩ | ⟨underscore, h⟩
  · have hkind : head.leaf.token.kind = .ident := head.kind_eq
    simp [h, hkind]
  · have hkind : underscore.leaf.token.kind = .underscore := underscore.kind_eq
    simp [h, hkind]

/-- A round reads an arm and at most one comma behind it. -/
theorem reads_armRound_some (hstop : stop.kind = .endOfInput) {a : Arm} :
    Reads (armRound stop) ls (some a) rest ↔
      ∃ t : ArmTree, ls = t.leaves ++ rest ∧ a = t.arm ∧ ArmEnds t rest := by
  have hcomma : stop.kind ≠ .comma := by simp [hstop]
  rw [armRound, reads_peek_bind]
  constructor
  · intro h
    split_ifs at h
    · cases (reads_pure.mp h).1
    obtain ⟨a', mid, harm, hbehind⟩ := reads_bind.mp h
    obtain ⟨pattern, arrow, body, rfl, hdepth, rfl⟩ := (reads_arm hstop).mp harm
    rcases (reads_next_bind hcomma).mp hbehind with ⟨comma, mid, rfl, hcase⟩ | ⟨hnot, hcase⟩
    · obtain ⟨u, last, hskip, hpure⟩ := reads_bind.mp hcase
      obtain rfl := reads_skip.mp hskip
      obtain ⟨ha, rfl⟩ := reads_pure.mp hpure
      cases ha
      refine ⟨⟨pattern, arrow, body, [comma]⟩, ?_, rfl, hdepth, Nat.le_refl 1, nofun⟩
      simp [ArmTree.leaves, ArmTree.armLeaves]
    · obtain ⟨ha, rfl⟩ := reads_pure.mp hcase
      cases ha
      refine ⟨⟨pattern, arrow, body, []⟩, ?_, rfl, hdepth, Nat.zero_le 1, fun _ => hnot⟩
      simp [ArmTree.leaves, ArmTree.armLeaves]
  · rintro ⟨⟨pattern, arrow, body, commas⟩, rfl, rfl, hdepth, hdivided, hends⟩
    simp only [ArmTree.leaves, ArmTree.armLeaves, List.append_assoc, List.cons_append]
    rw [if_neg (not_ends_arms pattern _)]
    have harm : Reads (arm stop)
        (pattern.leaves ++ arrow.leaf :: (body.leaves ++ (commas.map Terminal.leaf ++ rest)))
        (ArmTree.mk pattern arrow body []).arm (commas.map Terminal.leaf ++ rest) :=
      (reads_arm hstop).mpr ⟨pattern, arrow, body, rfl, hdepth, rfl⟩
    refine harm.bind ((reads_next_bind hcomma).mpr ?_)
    -- no comma or one: a round of the reader takes no second one
    rcases commas with _ | ⟨comma, _ | ⟨comma', commas⟩⟩
    · exact .inr ⟨hends rfl, reads_self _ _⟩
    · have hskip : Reads skip (comma.leaf :: rest) () rest := reads_skip.mpr rfl
      exact .inl ⟨comma, rest, rfl, hskip.bind (reads_self _ _)⟩
    · exact absurd hdivided (by simp [ArmTree.Divided])

/-- The rounds of a match end at the closing brace or at the end of the input. -/
theorem reads_armRound_none (hstop : stop.kind = .endOfInput) :
    Reads (armRound stop) ls none rest ↔
      (((ls.map Leaf.token).headD stop).kind = .rightBrace ∨
        ((ls.map Leaf.token).headD stop).kind = .endOfInput) ∧ rest = ls := by
  have hcomma : stop.kind ≠ .comma := by simp [hstop]
  rw [armRound, reads_peek_bind]
  split_ifs with h
  · have hend : ((ls.map Leaf.token).headD stop).kind = .rightBrace ∨
        ((ls.map Leaf.token).headD stop).kind = .endOfInput := by simpa using h
    rw [reads_pure]
    exact ⟨fun ⟨_, hrest⟩ => ⟨hend, hrest⟩, fun ⟨_, hrest⟩ => ⟨rfl, hrest⟩⟩
  · constructor
    · -- once an arm has been begun, the round yields it or fails
      intro hread
      obtain ⟨a, mid, -, hbehind⟩ := reads_bind.mp hread
      rcases (reads_next_bind hcomma).mp hbehind with ⟨comma, mid, rfl, hcase⟩ | ⟨-, hcase⟩
      · obtain ⟨u, last, -, hpure⟩ := reads_bind.mp hcase
        cases (reads_pure.mp hpure).1
      · cases (reads_pure.mp hcase).1
    · rintro ⟨hend, -⟩
      exact absurd (by simpa using hend) h

/-- All arms of a match, up to its closing brace or the end of the input. -/
theorem reads_armRounds (hstop : stop.kind = .endOfInput) {as : List Arm} :
    Reads (many (armRound stop)) ls as rest ↔
      ∃ ts mid, ls = ts.flatMap ArmTree.leaves ++ mid ∧ as = ts.map ArmTree.arm ∧
        ((((mid.map Leaf.token).headD stop).kind = .rightBrace ∨
          ((mid.map Leaf.token).headD stop).kind = .endOfInput) ∧ rest = mid) ∧
        EachEnds ArmTree.leaves ArmEnds mid ts := by
  refine reads_many ArmTree.leaves ArmTree.arm ArmEnds
    (fun ls mid => (((ls.map Leaf.token).headD stop).kind = .rightBrace ∨
      ((ls.map Leaf.token).headD stop).kind = .endOfInput) ∧ mid = ls) (fun t h => ?_)
    (fun ls a mid => reads_armRound_some hstop) (fun ls mid => reads_armRound_none hstop)
  simp [ArmTree.leaves, ArmTree.armLeaves] at h

/-- In front of the closing brace the arms end as the reader asks exactly if they are shallow and
divided. -/
theorem eachEnds_arms_iff {arms : List ArmTree} {closing : Terminal .rightBrace} :
    EachEnds ArmTree.leaves ArmEnds (closing.leaf :: rest) arms ↔
      ∀ a ∈ arms, a.Shallow ∧ a.Divided := by
  induction arms with
  | nil => simp [EachEnds]
  | cons a arms ih =>
    -- behind an arm comes another pattern or the brace, and neither begins with a comma
    have hcomma : BeginsNot .comma (arms.flatMap ArmTree.leaves ++ closing.leaf :: rest) :=
      MatchTree.beginsNot_arms_append (by decide) (by decide) (by decide) arms closing rest
    rw [EachEnds, ih]
    simp [ArmEnds, hcomma]

/-- **Matches.** A match is read exactly if a match whose argument lists are shallow and whose arms
have at most one comma behind them derives what is taken. -/
theorem reads_matchExpr (hstop : stop.kind = .endOfInput) {keyword : Terminal .matchWord}
    {m : MatchExpr} :
    Reads (matchExpr stop keyword.span) ls m rest ↔
      ∃ t : MatchTree, keyword.leaf :: ls = t.leaves ++ rest ∧
        (ItemTree.matchExpr t).Valid ∧ m = t.expr := by
  have hopening : stop.kind ≠ .leftBrace := by simp [hstop]
  have hclosing : stop.kind ≠ .rightBrace := by simp [hstop]
  have hexpr := readsTerms_term hstop .expression maxNesting
  rw [matchExpr, reads_bind]
  constructor
  · rintro ⟨v, mid, hscrutinee, h₁⟩
    obtain ⟨t, mid₁, hopen, h₂⟩ := reads_bind.mp h₁
    obtain ⟨as, mid₂, harms, h₃⟩ := reads_bind.mp h₂
    obtain ⟨u, mid₃, hclose, hpure⟩ := reads_bind.mp h₃
    obtain ⟨scrutinee, hdepth, rfl, rfl, -⟩ := (hexpr _ _ _).mp hscrutinee
    obtain ⟨opening, rfl, rfl⟩ := (reads_token hopening).mp hopen
    obtain ⟨closing, rfl, rfl⟩ := (reads_token hclosing).mp hclose
    obtain ⟨rfl, rfl⟩ := reads_pure.mp hpure
    obtain ⟨arms, last, rfl, rfl, ⟨-, rfl⟩, hends⟩ := (reads_armRounds hstop).mp harms
    exact ⟨⟨keyword, scrutinee, opening, arms, closing⟩, by simp [MatchTree.leaves],
      ⟨hdepth, eachEnds_arms_iff.mp hends⟩, rfl⟩
  · rintro ⟨⟨keyword', scrutinee, opening, arms, closing⟩, hls, ⟨hdepth, hvalid⟩, rfl⟩
    simp only [MatchTree.leaves, List.cons_append, List.append_assoc, List.nil_append] at hls
    obtain ⟨rfl, rfl⟩ := Terminal.cons_inj hls
    -- a brace follows the expression, so the expression is not read any further
    have hends : scrutinee.Ends
        (opening.leaf :: (arms.flatMap ArmTree.leaves ++ closing.leaf :: rest)) :=
      scrutinee.ends_of_beginsNot (opening.beginsNot (by decide) _)
    have hscrutinee := (hexpr _ _ _).mpr ⟨scrutinee, hdepth, rfl, rfl, hends⟩
    have harms : Reads (many (armRound stop))
        (arms.flatMap ArmTree.leaves ++ closing.leaf :: rest) (arms.map ArmTree.arm)
        (closing.leaf :: rest) :=
      (reads_armRounds hstop).mpr ⟨arms, _, rfl, rfl, ⟨.inl closing.kind_eq, rfl⟩,
        eachEnds_arms_iff.mpr hvalid⟩
    refine ⟨_, _, hscrutinee, (reads_token_cons hopening opening _).bind ?_⟩
    exact harms.bind ((reads_token_cons hclosing closing rest).bind (reads_self _ _))

/-! ### Items -/

/-- **Items.** An item is read exactly if a valid tree derives what is taken. -/
theorem reads_item (hstop : stop.kind = .endOfInput) {l : Leaf} (h : Leaf.Lined (l :: ls))
    {i : Item} :
    Reads (item stop l.token) ls i rest ↔
      ∃ t : ItemTree, l :: ls = t.leaves ++ rest ∧ t.Valid ∧ i = t.item := by
  -- by the first leaf, which is the same keyword in the reader and in the tree
  rcases beginsNot_or .enumWord (l :: ls) with ⟨keyword, ls', hcons⟩ | henum
  · obtain ⟨rfl, rfl⟩ := List.cons.inj hcons
    have hitem : item stop keyword.leaf.token = Item.enumDecl <$> enumDecl stop keyword.span := by
      rw [item, show keyword.leaf.token.kind = .enumWord from keyword.kind_eq]
    rw [hitem, reads_map]
    constructor
    · rintro ⟨e, hread, rfl⟩
      obtain ⟨t, hls, hdivided, rfl⟩ := (reads_enumDecl hstop h.tail).mp hread
      exact ⟨.enumDecl t, hls, hdivided, rfl⟩
    · rintro ⟨t, hls, hvalid, rfl⟩
      cases t with
      | enumDecl e => exact ⟨e.decl, (reads_enumDecl hstop h.tail).mpr ⟨e, hls, hvalid, rfl⟩, rfl⟩
      | matchExpr m => exact absurd hls (Terminal.cons_ne (by decide))
  rcases beginsNot_or .matchWord (l :: ls) with ⟨keyword, ls', hcons⟩ | hmatch
  · obtain ⟨rfl, rfl⟩ := List.cons.inj hcons
    have hitem : item stop keyword.leaf.token = Item.matchExpr <$> matchExpr stop keyword.span := by
      rw [item, show keyword.leaf.token.kind = .matchWord from keyword.kind_eq]
    rw [hitem, reads_map]
    constructor
    · rintro ⟨m, hread, rfl⟩
      obtain ⟨t, hls, hvalid, rfl⟩ := (reads_matchExpr hstop).mp hread
      exact ⟨.matchExpr t, hls, hvalid, rfl⟩
    · rintro ⟨t, hls, hvalid, rfl⟩
      cases t with
      | enumDecl e => exact absurd hls (Terminal.cons_ne (by decide))
      | matchExpr m => exact ⟨m.expr, (reads_matchExpr hstop).mpr ⟨m, hls, hvalid, rfl⟩, rfl⟩
  · -- nothing else begins an item
    have hitem : item stop l.token = fail (.unexpected .item l.token) := by
      unfold item
      split
      · exact absurd ‹_› (henum l rfl)
      · exact absurd ‹_› (hmatch l rfl)
      · rfl
    rw [hitem]
    constructor
    · intro hread
      exact absurd hread not_reads_fail
    · rintro ⟨t, hls, -⟩
      cases t with
      | enumDecl e => exact absurd (hls ▸ henum) not_beginsNot
      | matchExpr m => exact absurd (hls ▸ hmatch) not_beginsNot

end Reader

namespace Program

variable {stop : Token} {ls : List Leaf}

/-- One step: an item is read without an error, and so are the items behind it. -/
theorem itemsFrom_cons_eq_iff {l : Leaf} {items : List Item} :
    itemsFrom stop ((l :: ls).map Leaf.token) = (items, []) ↔
      ∃ i mid later, Reader.Reads (Reader.item stop l.token) ls i mid ∧
        itemsFrom stop (mid.map Leaf.token) = (later, []) ∧ items = i :: later := by
  rw [List.map_cons]
  constructor
  · -- no errors at all: neither the item nor what it notes nor anything behind it
    intro heq
    cases hresult : ((Reader.item stop l.token).run (ls.map Leaf.token)).result with
    | error e =>
      rw [itemsFrom_of_error hresult] at heq
      simp at heq
    | ok i =>
      rw [itemsFrom_of_ok hresult, Prod.mk.injEq] at heq
      obtain ⟨rfl, herrors⟩ := heq
      obtain ⟨hnotes, herrors⟩ := List.append_eq_nil_iff.mp herrors
      obtain ⟨mid, hmid, hrest⟩ := (Reader.item stop l.token).exists_rest_eq_map ls
      have hread := Reader.reads_of_notes_eq_nil hmid hnotes hrest hresult
      rw [hrest] at herrors ⊢
      exact ⟨i, mid, _, hread, Prod.ext rfl herrors, rfl⟩
  · rintro ⟨i, mid, later, ⟨hrun, -⟩, hlater, rfl⟩
    rw [itemsFrom_of_ok (by rw [hrun]), hrun, hlater]
    rfl

/-- Items are read without an error exactly if valid trees derive all leaves. -/
theorem itemsFrom_eq_iff (hstop : stop.kind = .endOfInput) (h : Leaf.Lined ls) {items : List Item} :
    itemsFrom stop (ls.map Leaf.token) = (items, []) ↔
      ∃ ts : List ItemTree, ls = ts.flatMap ItemTree.leaves ∧ (∀ t ∈ ts, t.Valid) ∧
        items = ts.map ItemTree.item := by
  -- on the length of what is left, since an item ends wherever its reader stops
  induction hn : ls.length using Nat.strongRecOn generalizing ls items with
  | ind n ih =>
    cases ls with
    | nil =>
      rw [List.map_nil, itemsFrom]
      constructor
      · intro heq
        exact ⟨[], rfl, List.forall_mem_nil _, (Prod.mk.inj heq).1.symm⟩
      · rintro ⟨ts, hts, -, rfl⟩
        cases ts with
        | nil => rfl
        | cons t ts => exact absurd (List.append_eq_nil_iff.mp hts.symm).1 t.leaves_ne_nil
    | cons l ls =>
      have hlt : ∀ mid : List Leaf, mid <:+ ls → mid.length < n := fun mid hmid => by
        have := hmid.length_le
        rw [← hn, List.length_cons]
        omega
      rw [itemsFrom_cons_eq_iff]
      constructor
      · rintro ⟨i, mid, later, hread, hlater, rfl⟩
        obtain ⟨t, hleaves, ht, rfl⟩ := (Reader.reads_item hstop h).mp hread
        have hlined : Leaf.Lined mid := h.tail.of_infix hread.2.isInfix
        obtain ⟨ts, rfl, hts, rfl⟩ := (ih _ (hlt mid hread.2) hlined rfl).mp hlater
        exact ⟨t :: ts, hleaves, List.forall_mem_cons.mpr ⟨ht, hts⟩, rfl⟩
      · rintro ⟨ts, hleaves, hvalid, rfl⟩
        cases ts with
        | nil => cases hleaves
        | cons t ts =>
          obtain ⟨ht, hts⟩ := List.forall_mem_cons.mp hvalid
          have hread := (Reader.reads_item hstop h).mpr ⟨t, hleaves, ht, rfl⟩
          have hlined : Leaf.Lined (ts.flatMap ItemTree.leaves) :=
            h.tail.of_infix hread.2.isInfix
          have hlater := (ih _ (hlt _ hread.2) hlined rfl).mpr ⟨ts, rfl, hts, rfl⟩
          exact ⟨_, _, _, hread, hlater, rfl⟩

end Program

theorem Program.ext_iff {p q : Program} : p = q ↔ p.items = q.items := by
  cases p
  cases q
  simp

namespace Source

/-- A source is read without an error exactly if valid trees derive its leaves, and then it is read
as the program of the trees. -/
theorem program_eq_iff (source : Source) {program : Program} :
    source.program = (program, []) ↔ ∃ d : Derivation source.leaves, program = d.program := by
  -- the leaves of a source are its tokens but for the trivia
  have hprogram : source.program = (program, []) ↔
      Program.itemsFrom source.endToken (source.leaves.map Leaf.token) = (program.items, []) := by
    rw [Source.program, Program.ofTokens, source.map_token_leaves, Prod.mk.injEq, Prod.ext_iff,
      Program.ext_iff]
  rw [hprogram, Program.itemsFrom_eq_iff rfl source.lined_leaves]
  constructor
  · rintro ⟨ts, hleaves, hvalid, hitems⟩
    refine ⟨⟨ts, hvalid, hleaves.symm⟩, ?_⟩
    cases program
    cases hitems
    rfl
  · rintro ⟨d, rfl⟩
    exact ⟨d.items, d.leaves_eq.symm, d.valid, rfl⟩

/-- A source has no syntax error exactly if there is a derivation. -/
theorem program_snd_eq_nil_iff {source : Source} :
    source.program.2 = [] ↔ Nonempty (Derivation source.leaves) := by
  constructor
  · intro h
    obtain ⟨d, -⟩ := source.program_eq_iff.mp (Prod.ext rfl h)
    exact ⟨d⟩
  · rintro ⟨d⟩
    rw [source.program_eq_iff.mpr ⟨d, rfl⟩]

/-- **Reading is deriving.** A source has no syntax error exactly if the grammar derives its leaves.
The derivation is unique, and the program that is read is the one it stands for. -/
theorem program_iff_derivation (source : Source) :
    (source.program.2 = [] ↔ Nonempty (Derivation source.leaves)) ∧
      (∀ d : Derivation source.leaves, source.program.1 = d.program) ∧
      ∀ d e : Derivation source.leaves, d = e := by
  refine ⟨program_snd_eq_nil_iff, fun d => ?_, fun d e => Subsingleton.elim d e⟩
  rw [source.program_eq_iff.mpr ⟨d, rfl⟩]

end Source

end MatchCheck
