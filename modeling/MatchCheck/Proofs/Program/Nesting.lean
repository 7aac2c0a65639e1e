import MatchCheck.Proofs.Program.Reader
import MatchCheck.Proofs.Program.Spans
import MatchCheck.Proofs.Token.Place

/-!
# How the pieces of a program lie

A program is laid out as spans inside spans (`Layout`): a piece has a span and parts, each with a
span of its own, down to the names. A layout is sound in a source if every span in it is one that
the source gives, every part lies inside its piece, the parts of a piece stand one behind the other,
and a name is what the source says at its span.

The readers are followed along the text. A reader that is given the tokens from some offset on
leaves the tokens from a later offset on, and what it reads lies between the two (`Reader.Lays`).
Sequencing puts rows of parts behind each other, and a piece is sound as soon as its parts are a row
between its two ends (`Layout.Sound.of_row`). Errors do not interrupt this: whatever is reported on
the way is at a genuine span.
-/

namespace MatchCheck

/-! ### Layouts -/

/-- The pieces of a program as spans inside spans. -/
inductive Layout where
  | name (ident : Ident)
  | piece (span : Span) (parts : List Layout)

/-! The layout of a piece holds all its spans: its own, and as parts those of the names and pieces
in it, in the order in which they are written. -/

def CtorDecl.layout (c : CtorDecl) : Layout :=
  .piece c.span (.name c.name :: c.field.toList.map .name)

def EnumDecl.layout (d : EnumDecl) : Layout :=
  .piece d.span (.name d.name :: d.ctors.map CtorDecl.layout)

mutual

def Expr.layout : Expr → Layout
  | .apply span name args => .piece span (.name name :: Expr.layouts args)

def Expr.layouts : List Expr → List Layout
  | [] => []
  | e :: es => e.layout :: Expr.layouts es

end

mutual

def Pattern.layout : Pattern → Layout
  | .wildcard span => .piece span []
  | .ctor span name args => .piece span (.name name :: Pattern.layouts args)

def Pattern.layouts : List Pattern → List Layout
  | [] => []
  | p :: ps => p.layout :: Pattern.layouts ps

end

def Arm.layout (a : Arm) : Layout :=
  .piece a.span [a.pattern.layout, .piece a.bodySpan []]

/-- The arms of a match lie between the matched expression and the closing brace. -/
def MatchExpr.layout (m : MatchExpr) : Layout :=
  .piece m.span (.piece m.keywordSpan [] :: m.scrutinee.layout ::
    (m.arms.map Arm.layout ++ [.piece m.closeSpan []]))

def Item.layout : Item → Layout
  | .enumDecl decl => decl.layout
  | .matchExpr expr => expr.layout

/-- The layouts of the items of a program. -/
def Program.layouts (p : Program) : List Layout :=
  p.items.map Item.layout

@[simp] theorem Expr.layouts_eq_map (es : List Expr) : Expr.layouts es = es.map Expr.layout := by
  induction es with
  | nil => rfl
  | cons e es ih => rw [Expr.layouts, ih, List.map_cons]

@[simp] theorem Pattern.layouts_eq_map (ps : List Pattern) :
    Pattern.layouts ps = ps.map Pattern.layout := by
  induction ps with
  | nil => rfl
  | cons p ps ih => rw [Pattern.layouts, ih, List.map_cons]

/-- The second span lies inside the first. -/
structure Span.Contains (s t : Span) : Prop where
  start_le : s.start.offset ≤ t.start.offset
  stop_le : t.stop.offset ≤ s.stop.offset

/-- The second span lies behind the first. -/
def Span.Before (s t : Span) : Prop :=
  s.stop.offset ≤ t.start.offset

namespace Layout

/-- The span of a piece or a name. -/
def span : Layout → Span
  | name i => i.span
  | piece s _ => s

/-- **Sound layouts.** -/
inductive Sound (source : Source) : Layout → Prop
  -- a name is what the source says at its span
  | name {i : Ident} (genuine : i.span.Genuine source)
      (spells : i.span.Spells source i.name.toList) : Sound source (.name i)
  -- the parts of a piece lie inside it and one behind the other
  | piece {s : Span} {parts : List Layout} (genuine : s.Genuine source)
      (inside : ∀ p ∈ parts, s.Contains p.span)
      (ordered : parts.Pairwise fun p q => p.span.Before q.span)
      (sound : ∀ p ∈ parts, Sound source p) : Sound source (.piece s parts)

variable {source : Source} {lo mid hi : Nat} {p : Layout} {ps qs : List Layout}

/-- Whatever has a sound layout is at a span that the source gives. -/
theorem Sound.genuine (h : p.Sound source) : p.span.Genuine source := by
  cases h <;> assumption

/-- Sound parts that stand one behind the other between two offsets. -/
def Row (source : Source) : Nat → List Layout → Nat → Prop
  | lo, [], hi => lo ≤ hi
  | lo, p :: ps, hi =>
    lo ≤ p.span.start.offset ∧ p.Sound source ∧ Row source p.span.stop.offset ps hi

namespace Row

/-- A row of one part, between any offsets that enclose it. -/
theorem single (hlo : lo ≤ p.span.start.offset) (hp : p.Sound source)
    (hhi : p.span.stop.offset ≤ hi) : Row source lo [p] hi :=
  ⟨hlo, hp, hhi⟩

/-- The ends of a row are in order, since no part ends before it begins. -/
theorem le (h : Row source lo ps hi) : lo ≤ hi := by
  induction ps generalizing lo with
  | nil => exact h
  | cons p ps ih =>
    obtain ⟨hlo, hp, hrest⟩ := h
    exact hlo.trans (hp.genuine.ordered.trans (ih hrest))

/-- A row may begin further in front. -/
theorem mono_left (h : Row source mid ps hi) (hlo : lo ≤ mid) : Row source lo ps hi := by
  cases ps with
  | nil => exact Nat.le_trans hlo h
  | cons p ps => exact ⟨hlo.trans h.1, h.2⟩

/-- Rows that meet are one row. -/
theorem append (hps : Row source lo ps mid) (hqs : Row source mid qs hi) :
    Row source lo (ps ++ qs) hi := by
  -- on the first row, whose last offset is where the second one begins
  induction ps generalizing lo with
  | nil => exact hqs.mono_left hps
  | cons p ps ih => exact ⟨hps.1, hps.2.1, ih hps.2.2⟩

/-- A row may end further behind: the rest of it is an empty row. -/
theorem mono_right (h : Row source lo ps mid) (hhi : mid ≤ hi) : Row source lo ps hi := by
  have happend : Row source lo (ps ++ []) hi := h.append hhi
  rwa [List.append_nil] at happend

theorem sound (h : Row source lo ps hi) : ∀ p ∈ ps, p.Sound source := by
  induction ps generalizing lo with
  | nil => simp
  | cons p ps ih => exact List.forall_mem_cons.mpr ⟨h.2.1, ih h.2.2⟩

/-- The parts of a row lie between its ends. -/
theorem inside (h : Row source lo ps hi) :
    ∀ p ∈ ps, lo ≤ p.span.start.offset ∧ p.span.stop.offset ≤ hi := by
  induction ps generalizing lo with
  | nil => simp
  | cons p ps ih =>
    obtain ⟨hlo, hp, hrest⟩ := h
    refine List.forall_mem_cons.mpr ⟨⟨hlo, hrest.le⟩, fun q hq => ?_⟩
    obtain ⟨hq, hhi⟩ := ih hrest q hq
    exact ⟨hlo.trans (hp.genuine.ordered.trans hq), hhi⟩

/-- The parts of a row stand one behind the other. -/
theorem ordered (h : Row source lo ps hi) : ps.Pairwise fun p q => p.span.Before q.span := by
  induction ps generalizing lo with
  | nil => exact .nil
  | cons p ps ih =>
    exact List.pairwise_cons.mpr ⟨fun q hq => (inside h.2.2 q hq).1, ih h.2.2⟩

end Row

/-- A piece is sound if its parts are a row between its ends. -/
theorem Sound.of_row {s : Span} (hs : s.Genuine source)
    (h : Row source s.start.offset ps s.stop.offset) : (Layout.piece s ps).Sound source :=
  .piece hs (fun p hp => ⟨(h.inside p hp).1, (h.inside p hp).2⟩) h.ordered h.sound

/-- A piece that is made of a first and a last span is sound if its parts are a row between them. -/
theorem Row.of_merge {s t : Span} (hs : s.Genuine source) (ht : t.Genuine source)
    (hlo : lo ≤ s.start.offset) (hstart : s.start.offset ≤ t.start.offset)
    (hstop : s.stop.offset ≤ t.stop.offset) (h : Row source s.start.offset ps t.stop.offset)
    (hhi : t.stop.offset ≤ hi) : Row source lo [.piece (s.merge t) ps] hi := by
  -- the merged span begins with the first one and ends with the last one
  have hfirst : (s.merge t).start.offset = s.start.offset := by
    rw [Span.offset_start_merge]
    exact Nat.min_eq_left hstart
  have hlast : (s.merge t).stop.offset = t.stop.offset := by
    rw [Span.offset_stop_merge]
    exact Nat.max_eq_right hstop
  refine single (hfirst ▸ hlo) (.of_row (hs.merge ht) ?_) (hlast ▸ hhi)
  rwa [hfirst, hlast]

end Layout

/-! ### Tokens along the text -/

/-- A token of a source stands at its span. -/
structure Token.Stands (source : Source) (t : Token) : Prop where
  genuine : t.span.Genuine source
  spells : t.span.Spells source t.text

/-- Tokens of a source that stand one behind the other, from an offset on. -/
def Token.From (source : Source) : Nat → List Token → Prop
  | _, [] => True
  | lo, t :: ts =>
    lo ≤ t.span.start.offset ∧ t.Stands source ∧ From source t.span.stop.offset ts

namespace Token.From

variable {source : Source} {lo lo' : Nat} {ts us : List Token}

/-- Tokens from an offset on are tokens from any offset before it on. -/
theorem mono (h : From source lo ts) (hle : lo' ≤ lo) : From source lo' ts := by
  cases ts with
  | nil => trivial
  | cons t ts => exact ⟨hle.trans h.1, h.2⟩

theorem tail {t : Token} (h : From source lo (t :: ts)) : From source lo ts :=
  h.2.2.mono (h.1.trans h.2.1.genuine.ordered)

/-- Tokens may be left out, such as those that mean nothing to a reader. -/
theorem sublist (h : From source lo ts) (hus : us.Sublist ts) : From source lo us := by
  induction hus generalizing lo with
  | slnil => trivial
  | cons t _ ih => exact ih h.tail
  | cons_cons t _ ih => exact ⟨h.1, h.2.1, ih h.2.2⟩

end Token.From

/-- Everything that an error is reported at is genuine. -/
def SyntaxError.Genuine (source : Source) (e : SyntaxError) : Prop :=
  ∀ s ∈ e.diagnostic.spans, s.Genuine source

theorem SyntaxError.genuine_unexpected {source : Source} {t : Token} (h : t.span.Genuine source)
    (expected : Expectation) : (unexpected expected t).Genuine source := by
  intro s hs
  rw [List.mem_singleton.mp (show s ∈ [t.span] from hs)]
  exact h

theorem SyntaxError.genuine_tooDeep {source : Source} {opening : Span}
    (h : opening.Genuine source) : (tooDeep opening).Genuine source := by
  intro s hs
  rw [List.mem_singleton.mp (show s ∈ [opening] from hs)]
  exact h

/-- Fields in excess are reported at the span that they take up together. -/
theorem SyntaxError.genuine_tooManyFields {source : Source} (ctor : Ident) {extra : Span}
    (h : extra.Genuine source) : (tooManyFields ctor extra).Genuine source := by
  intro s hs
  rw [List.mem_singleton.mp (show s ∈ [extra] from hs)]
  exact h

/-- A block that is not closed is reported at the end and at its opening brace. -/
theorem SyntaxError.genuine_unclosedBlock {source : Source} {opening stop : Span}
    (hopening : opening.Genuine source) (hstop : stop.Genuine source) :
    (unclosedBlock opening stop).Genuine source := by
  intro s hs
  rcases List.mem_pair.mp (show s ∈ [stop, opening] from hs) with rfl | rfl
  · exact hstop
  · exact hopening

/-- A reply about a source: errors are at genuine spans, and if something was read, the tokens that
are left stand from an offset on that fits it. -/
structure Reply.Placed {α : Type} (source : Source) (post : α → Nat → Prop) (r : Reply α) :
    Prop where
  notes : ∀ e ∈ r.notes, e.Genuine source
  error : ∀ e, r.result = .error e → e.Genuine source
  ok : ∀ a, r.result = .ok a → ∃ hi, Token.From source hi r.rest ∧ post a hi

/-- Returning a value reads nothing, so the value has to fit the offset at hand. -/
theorem Reply.Placed.pure {α : Type} {source : Source} {post : α → Nat → Prop} {lo : Nat}
    {ts : List Token} {a : α} (hts : Token.From source lo ts) (h : post a lo) :
    ((Pure.pure a : Reader α).run ts).Placed source post := by
  refine ⟨by simp, by simp, fun b hb => ?_⟩
  cases hb
  exact ⟨lo, hts, h⟩

/-- A value that is returned as soon as the next token is passed over. -/
theorem Reply.Placed.skipped {α : Type} {source : Source} {post : α → Nat → Prop} {lo : Nat}
    {t : Token} {ts : List Token} {a : α} (hts : Token.From source lo ts) (h : post a lo) :
    ((Reader.skip >>= fun _ => (Pure.pure a : Reader α)).run (t :: ts)).Placed source post :=
  .pure hts h

/-- A failure leaves no offset to speak of: only its error has to be genuine. -/
theorem Reply.Placed.fail {α : Type} {source : Source} {post : α → Nat → Prop} {e : SyntaxError}
    (h : e.Genuine source) (ts : List Token) :
    ((Reader.fail e : Reader α).run ts).Placed source post := by
  refine ⟨by simp [Reader.fail], fun e' he => ?_, by simp [Reader.fail]⟩
  cases he
  exact h

/-- One reply behind the other: the second one is about what the first one leaves. -/
theorem Reply.Placed.andThen {α β : Type} {source : Source} {P : α → Nat → Prop}
    {Q : β → Nat → Prop} {r : Reply α} {f : α → List Token → Reply β} (h : r.Placed source P)
    (hf : ∀ a mid, Token.From source mid r.rest → P a mid → (f a r.rest).Placed source Q) :
    (r.andThen f).Placed source Q := by
  obtain ⟨hnotes, herror, hok⟩ := h
  -- the second part begins where the first one got to
  cases hr : r.result with
  | error e =>
    rw [Reply.andThen_of_error hr]
    refine ⟨hnotes, fun e' he => ?_, by simp⟩
    cases he
    exact herror e hr
  | ok a =>
    obtain ⟨mid, hmid, hP⟩ := hok a hr
    obtain ⟨hnotes', herror', hok'⟩ := hf a mid hmid hP
    rw [Reply.andThen_of_ok hr]
    exact ⟨List.forall_mem_append.mpr ⟨hnotes, hnotes'⟩, herror', hok'⟩

namespace Reader

variable {α β : Type} {source : Source} {lo : Nat}

/-- What a reader does with the tokens of a source from an offset on. -/
def Places (source : Source) (lo : Nat) (p : Reader α) (post : α → Nat → Prop) : Prop :=
  ∀ ts, Token.From source lo ts → (p.run ts).Placed source post

/-- A reader that reads rows: wherever it begins, the parts that it reads lie between there and the
tokens that it leaves. -/
def Lays (source : Source) (view : α → List Layout) (p : Reader α) : Prop :=
  ∀ lo, Places source lo p fun a hi => Layout.Row source lo (view a) hi

namespace Places

variable {p : Reader α} {f : α → Reader β} {P : α → Nat → Prop} {Q : β → Nat → Prop}

theorem pure {b : β} (h : Q b lo) : Places source lo (Pure.pure b) Q :=
  fun _ hts => .pure hts h

theorem fail {e : SyntaxError} (h : e.Genuine source) : Places source lo (Reader.fail e) Q :=
  fun ts _ => .fail h ts

/-- **Sequencing.** -/
theorem bind (hp : Places source lo p P) (hf : ∀ a mid, P a mid → Places source mid (f a) Q) :
    Places source lo (p >>= f) Q :=
  fun ts hts => (hp ts hts).andThen fun a mid hmid hP => hf a mid hP _ hmid

/-- What is known about the outcome may be weakened. -/
theorem mono {P' : α → Nat → Prop} (hp : Places source lo p P) (h : ∀ a hi, P a hi → P' a hi) :
    Places source lo p P' := by
  intro ts hts
  obtain ⟨hnotes, herror, hok⟩ := hp ts hts
  refine ⟨hnotes, herror, fun a ha => ?_⟩
  obtain ⟨hi, hhi, hP⟩ := hok a ha
  exact ⟨hi, hhi, h a hi hP⟩

/-- An error on the way leaves the tokens where they are. -/
theorem note {e : SyntaxError} (h : e.Genuine source) :
    Places source lo (Reader.note e) fun _ hi => hi = lo := by
  intro ts hts
  refine ⟨fun e' he => ?_, by simp [Reader.note], fun _ _ => ⟨lo, hts, rfl⟩⟩
  rw [List.mem_singleton.mp he]
  exact h

/-- Passing over a token keeps the offset. What is left stands further on, but no part was read. -/
theorem skip : Places source lo Reader.skip fun _ hi => hi = lo := by
  intro ts hts
  exact ⟨by simp [Reader.skip], by simp [Reader.skip],
    fun _ _ => ⟨lo, hts.sublist (List.tail_sublist ts), rfl⟩⟩

/-- What is decided about the next token is decided about one that is there or about the end. -/
theorem peek {stop : Token} {f : Token → Reader α}
    (hcons : ∀ t ts, Token.From source lo (t :: ts) → ((f t).run (t :: ts)).Placed source P)
    (hnil : ((f stop).run []).Placed source P) :
    Places source lo (Reader.peek stop >>= f) P := by
  intro ts hts
  cases ts with
  | nil => exact hnil
  | cons t ts => exact hcons t ts hts

/-- Looking at the kind of the next token moves nothing. -/
theorem next (stop : Token) (kind : TokenKind) :
    Places source lo (Reader.next stop kind) fun _ hi => hi = lo := by
  refine peek (fun t ts hts => ?_) ?_
  · exact .pure hts rfl
  · exact .pure (show Token.From source lo [] from trivial) rfl

/-- A branch on the kind of the next token, which is passed over in the first case. -/
theorem ifNext (stop : Token) (kind : TokenKind) {q q' : Reader α} (hq : Places source lo q P)
    (hq' : Places source lo q' P) :
    Places source lo
      (Reader.next stop kind >>= fun b => if b = true then Reader.skip >>= fun _ => q else q')
      P := by
  refine (next stop kind).bind ?_
  rintro b mid rfl
  cases b with
  | true => exact skip.bind fun _ mid' hmid => hmid ▸ hq
  | false => exact hq'

end Places

/-- **Repetition.** What the rounds read stands in one row. -/
theorem Lays.many {round : Reader (Option α)} {view : α → Layout}
    (h : Lays source (fun o => o.toList.map view) round) :
    Lays source (fun as => as.map view) (Reader.many round) := by
  intro lo ts hts
  -- the offset is general, because every round begins where the one before it ended
  refine manyFrom_induction (M := fun ts r => ∀ lo, Token.From source lo ts →
    r.Placed source fun as hi => Layout.Row source lo (as.map view) hi) round ?_ ts lo hts
  intro ts ih lo hts
  refine (h lo ts hts).andThen fun o mid hmid hrow => ?_
  cases o with
  | none => exact .pure hmid hrow
  | some a =>
    rw [furtherRounds]
    split
    · next hlt =>
      -- the row of the further rounds begins where the first round ended
      rw [Reply.map_eq_andThen]
      exact (ih _ hlt mid hmid).andThen fun as hi hhi hrest => .pure hhi (hrow.append hrest)
    · exact .pure hmid hrow

/-! ### The readers of the grammar -/

section Grammar

variable {stop : Token} (hstop : stop.span.Genuine source) (hend : stop.kind = .endOfInput)
include hstop hend

/-- **An expected token.** It stands behind the offset, and the reading goes on at its end. At the
end of the input an error is reported. -/
theorem places_expect {kind : TokenKind} (hkind : kind ≠ .endOfInput) (expected : Expectation) :
    Places source lo (expect stop kind expected) fun t hi =>
      lo ≤ t.span.start.offset ∧ t.Stands source ∧ hi = t.span.stop.offset := by
  refine Places.peek (fun t ts hts => ?_) ?_
  · split
    · exact .skipped hts.2.2 ⟨hts.1, hts.2.1, rfl⟩
    · exact .fail (SyntaxError.genuine_unexpected hts.2.1.genuine expected) (t :: ts)
  · -- the end of the input is none of the kinds that are expected
    rw [if_neg (hend ▸ hkind.symm)]
    exact .fail (SyntaxError.genuine_unexpected hstop expected) []

/-- A name is laid out as the token that it is read from. -/
theorem lays_ident (expected : Expectation) :
    Lays source (fun i => [.name i]) (ident stop expected) := by
  intro lo
  refine (places_expect hstop hend (by decide) expected).bind ?_
  rintro t mid ⟨hlo, ht, rfl⟩
  refine Places.pure (Layout.Row.single hlo (.name ht.genuine ?_) (Nat.le_refl _))
  show t.span.Spells source (String.ofList t.text).toList
  rw [String.toList_ofList]
  exact ht.spells

omit hstop hend in
/-- Elements with commas between them are a row if each of them is. -/
theorem lays_commaSeparated {element : Reader α} {view : α → Layout}
    (h : Lays source (fun a => [view a]) element) :
    Lays source (fun as => as.map view) (commaSeparated stop element) := by
  intro lo
  refine (h lo).bind fun a mid ha => ?_
  -- each round lays one element, behind its comma
  have hround : Lays source (fun o : Option α => o.toList.map view)
      (next stop .comma >>= fun b =>
        if b = true then skip >>= fun _ => element >>= fun a => Pure.pure (some a)
        else Pure.pure none) := by
    intro lo
    refine Places.ifNext stop .comma ((h lo).bind fun a mid ha => Places.pure ha) ?_
    exact Places.pure (Nat.le_refl lo)
  exact (hround.many mid).bind fun as hi has => Places.pure (ha.append has)

omit hstop hend in
/-- An argument list may be empty, and else is a row of its elements. -/
theorem lays_argumentList {element : Reader α} {view : α → Layout}
    (h : Lays source (fun a => [view a]) element) :
    Lays source (fun as => as.map view) (argumentList stop element) := by
  intro lo
  refine (Places.next stop _).bind ?_
  rintro b mid rfl
  cases b with
  | true => exact Places.pure (Nat.le_refl _)
  | false => exact lays_commaSeparated h _

/-- Behind a name stand its arguments, and the last of name and arguments ends last. -/
theorem places_arguments {name : Ident} (hname : name.span.Genuine source)
    (hlo : name.span.stop.offset ≤ lo) {inner : Span → Reader (List α)} {view : α → Layout}
    (h : ∀ s, s.Genuine source → Lays source (fun as => as.map view) (inner s)) :
    Places source lo (arguments stop name inner) fun x hi =>
      x.2.Genuine source ∧ name.span.start.offset ≤ x.2.start.offset ∧
        Layout.Row source name.span.stop.offset (x.1.map view) x.2.stop.offset ∧
        x.2.stop.offset ≤ hi := by
  have hnone : name.span.Genuine source ∧ name.span.start.offset ≤ name.span.start.offset ∧
      Layout.Row source name.span.stop.offset ([].map view) name.span.stop.offset ∧
      name.span.stop.offset ≤ lo :=
    ⟨hname, Nat.le_refl _, Nat.le_refl _, hlo⟩
  refine Places.peek (fun t ts hts => ?_) ?_
  · split
    · -- the list ends with its closing parenthesis, behind all arguments
      have hinner : Places source lo
          (skip >>= fun _ => inner t.span >>= fun args => token stop .rightParen >>= fun close =>
            Pure.pure (args, close.span)) fun x hi =>
              x.2.Genuine source ∧ name.span.start.offset ≤ x.2.start.offset ∧
                Layout.Row source name.span.stop.offset (x.1.map view) x.2.stop.offset ∧
                x.2.stop.offset ≤ hi := by
        refine Places.skip.bind ?_
        rintro - lo rfl
        refine (h t.span hts.2.1.genuine lo).bind fun args mid hargs => ?_
        refine (places_expect hstop hend (by decide) _).bind ?_
        rintro close hi ⟨hmid, hclose, rfl⟩
        have hle := hargs.le
        have hordered := hname.ordered
        refine Places.pure ⟨hclose.genuine, ?_, ?_, Nat.le_refl _⟩
        · show name.span.start.offset ≤ close.span.start.offset
          omega
        · exact (hargs.mono_left hlo).mono_right (hmid.trans hclose.genuine.ordered)
      exact hinner (t :: ts) hts
    · exact .pure hts hnone
  · rw [if_neg (by rw [hend]; decide)]
    exact .pure (show Token.From source lo [] from trivial) hnone

/-- An expression is a piece that has its name and its arguments as parts. -/
theorem lays_exprWith {inner : Span → Reader (List Expr)}
    (h : ∀ s, s.Genuine source → Lays source (fun as => as.map Expr.layout) (inner s)) :
    Lays source (fun e => [e.layout]) (exprWith stop inner) := by
  intro lo
  refine (lays_ident hstop hend _ lo).bind fun name mid hname => ?_
  refine (places_arguments hstop hend hname.2.1.genuine hname.2.2 h).bind ?_
  -- the last span is that of the name or of the closing parenthesis
  rintro ⟨args, last⟩ hi ⟨hlast, hstart, hargs, hhi⟩
  refine Places.pure ?_
  show Layout.Row source lo [(Expr.apply (name.span.merge last) name args).layout] hi
  rw [Expr.layout, Expr.layouts_eq_map]
  exact .of_merge hname.2.1.genuine hlast hname.1 hstart hargs.le
    ⟨Nat.le_refl _, hname.2.1, hargs⟩ hhi

/-- A pattern is an underscore, which has no parts, or is laid out like an expression. -/
theorem lays_patternWith {inner : Span → Reader (List Pattern)}
    (h : ∀ s, s.Genuine source → Lays source (fun as => as.map Pattern.layout) (inner s)) :
    Lays source (fun p => [p.layout]) (patternWith stop inner) := by
  intro lo
  -- the span goes from the name to the last of name and arguments
  have hctor : Places source lo
      (ident stop .pattern >>= fun name => arguments stop name inner >>= fun x =>
        Pure.pure (Pattern.ctor (name.span.merge x.2) name x.1))
      fun p hi => Layout.Row source lo [p.layout] hi := by
    refine (lays_ident hstop hend _ lo).bind fun name mid hname => ?_
    refine (places_arguments hstop hend hname.2.1.genuine hname.2.2 h).bind ?_
    rintro ⟨args, last⟩ hi ⟨hlast, hstart, hargs, hhi⟩
    refine Places.pure ?_
    show Layout.Row source lo [(Pattern.ctor (name.span.merge last) name args).layout] hi
    rw [Pattern.layout, Pattern.layouts_eq_map]
    exact .of_merge hname.2.1.genuine hlast hname.1 hstart hargs.le
      ⟨Nat.le_refl _, hname.2.1, hargs⟩ hhi
  refine Places.peek (fun t ts hts => ?_) ?_
  · -- an underscore is passed over as it stands
    split
    · have ht := hts.2.1.genuine
      exact .skipped hts.2.2 (.single hts.1 (.of_row ht ht.ordered) (Nat.le_refl _))
    · exact hctor (t :: ts) hts
  · rw [if_neg (by rw [hend]; decide)]
    exact hctor [] trivial

/-- Expressions are laid out soundly, however deep they may nest. -/
theorem lays_expr (n : Nat) : Lays source (fun e => [e.layout]) (expr stop n) := by
  -- on the depth that is left: at zero an argument list is an error
  induction n with
  | zero =>
    exact lays_exprWith hstop hend fun s hs lo => Places.fail (SyntaxError.genuine_tooDeep hs)
  | succ n ih => exact lays_exprWith hstop hend fun _ _ => lays_argumentList ih

theorem lays_pattern (n : Nat) : Lays source (fun p => [p.layout]) (pattern stop n) := by
  induction n with
  | zero =>
    exact lays_patternWith hstop hend fun s hs lo => Places.fail (SyntaxError.genuine_tooDeep hs)
  | succ n ih => exact lays_patternWith hstop hend fun _ _ => lays_argumentList ih

/-! Declarations -/

/-- A further field is a comma and a name. After the last comma the name may be missing. -/
theorem lays_extraField :
    Lays source (fun o => o.toList.map Layout.name) (extraField stop) := by
  intro lo
  refine Places.ifNext stop _ ((Places.next stop _).bind ?_) (Places.pure (Nat.le_refl lo))
  rintro b mid rfl
  cases b with
  | true => exact Places.pure (Nat.le_refl _)
  | false => exact (lays_ident hstop hend _ _).bind fun i hi hrow => Places.pure hrow

/-- Further fields are passed over, and reported at one span from the first to the last of them. -/
theorem places_extraFields (ctor : Ident) (field : Option Ident) :
    Places source lo (extraFields stop ctor field) fun o hi => o = field ∧ lo ≤ hi := by
  refine ((lays_extraField hstop hend).many lo).bind fun extra mid hextra => ?_
  cases extra with
  | nil => exact Places.pure ⟨rfl, hextra.le⟩
  | cons first others =>
    -- merged from spans that are genuine, name by name
    have hgenuine : (others.foldl (fun s i => s.merge i.span) first.span).Genuine source := by
      refine List.foldlRecOn others _ (hextra.sound (.name first) (by simp)).genuine ?_
      intro s hs i hi
      have hi : Layout.name i ∈ (first :: others).map Layout.name :=
        List.mem_map_of_mem (List.mem_cons_of_mem _ hi)
      exact hs.merge (hextra.sound _ hi).genuine
    refine Places.bind (Places.note (SyntaxError.genuine_tooManyFields ctor hgenuine)) ?_
    rintro - hi rfl
    exact Places.pure ⟨rfl, hextra.le⟩

/-- The fields of a constructor: only the first one is laid out. -/
theorem lays_fields (ctor : Ident) :
    Lays source (fun o => o.toList.map Layout.name) (fields stop ctor) := by
  intro lo
  refine (Places.next stop _).bind ?_
  rintro b lo rfl
  -- in both cases the field is read first and the further fields end behind it
  have hrest : ∀ field mid, Layout.Row source lo (field.toList.map Layout.name) mid →
      Places source mid (extraFields stop ctor field) fun o hi =>
        Layout.Row source lo (o.toList.map Layout.name) hi := by
    intro field mid hrow
    refine (places_extraFields hstop hend ctor field).mono ?_
    rintro o hi ⟨rfl, hle⟩
    exact hrow.mono_right hle
  cases b with
  | true =>
    refine Places.bind ?_ hrest
    exact Places.pure (Nat.le_refl lo)
  | false =>
    refine Places.bind ?_ hrest
    exact (lays_ident hstop hend _ lo).bind fun i mid hrow => Places.pure hrow

/-- A constructor has its name and its field as parts. -/
theorem lays_ctorDecl : Lays source (fun c => [c.layout]) (ctorDecl stop) := by
  intro lo
  refine (lays_ident hstop hend _ lo).bind fun name mid hname => ?_
  have hgenuine : name.span.Genuine source := hname.2.1.genuine
  refine Places.ifNext stop _ ?_ ?_
  · refine (lays_fields hstop hend name mid).bind fun field later hfield => ?_
    refine (places_expect hstop hend (by decide) _).bind ?_
    rintro close hi ⟨hlater, hclose, rfl⟩
    -- the fields stand between the name and the closing parenthesis
    have hle : mid ≤ later := hfield.le
    have hstop' : name.span.stop.offset ≤ mid := hname.2.2
    have hordered := hgenuine.ordered
    have hordered' := hclose.genuine.ordered
    refine Places.pure (.of_merge hgenuine hclose.genuine hname.1 (by omega) (by omega) ?_
      (Nat.le_refl _))
    exact ⟨Nat.le_refl _, hname.2.1,
      (hfield.mono_left hstop').mono_right (hlater.trans hordered')⟩
  · exact Places.pure (.single hname.1 (.of_row hgenuine (.single (Nat.le_refl _) hname.2.1
      (Nat.le_refl _))) hname.2.2)

/-- Between constructors stands a comma, or a line ends. In either case nothing is laid out. -/
theorem places_separator (ctor : CtorDecl) :
    Places source lo (separator stop ctor) fun _ hi => lo ≤ hi := by
  refine Places.peek (fun t ts hts => ?_) ?_
  · split
    · exact (Places.skip.mono fun _ _ h => h ▸ Nat.le_refl _) (t :: ts) hts
    · -- no comma: the line has to end, or the constructors do
      split
      · exact .pure hts (Nat.le_refl lo)
      · exact .fail (SyntaxError.genuine_unexpected hts.2.1.genuine _) (t :: ts)
  · rw [if_neg (by rw [hend]; decide)]
    split
    · exact .pure (show Token.From source lo [] from trivial) (Nat.le_refl lo)
    · exact .fail (SyntaxError.genuine_unexpected hstop _) []

/-- One round of the constructors of an enum, which ends at the closing brace. -/
theorem lays_ctorRound :
    Lays source (fun o => o.toList.map CtorDecl.layout) (ctorRound stop) := by
  intro lo
  refine (Places.next stop _).bind ?_
  rintro b lo rfl
  cases b with
  | true => exact Places.pure (Nat.le_refl _)
  | false =>
    refine (lays_ctorDecl hstop hend lo).bind fun ctor mid hctor => ?_
    refine (places_separator hstop hend ctor).bind fun _ hi hhi => ?_
    exact Places.pure (hctor.mono_right hhi)

/-- **A declaration** reaches from its keyword to its closing brace. -/
theorem places_enumDecl {keyword : Span} (hkeyword : keyword.Genuine source) :
    Places source keyword.stop.offset (enumDecl stop keyword) fun d hi =>
      Layout.Row source keyword.start.offset [d.layout] hi := by
  refine (lays_ident hstop hend _ _).bind fun name mid hname => ?_
  refine (places_expect hstop hend (by decide) _).bind ?_
  rintro opening - ⟨hmid, hopening, rfl⟩
  refine ((lays_ctorRound hstop hend).many _).bind fun ctors later hctors => ?_
  refine (places_expect hstop hend (by decide) _).bind ?_
  rintro close - ⟨hlater, hclose, rfl⟩
  have hordered := hkeyword.ordered
  have hordered' := hclose.genuine.ordered
  -- name and constructors stand between the keyword and the closing brace
  have hparts : Layout.Row source keyword.start.offset (.name name :: ctors.map CtorDecl.layout)
      close.span.stop.offset := by
    refine (hname.mono_left hordered).append (hctors.mono_left ?_ |>.mono_right ?_)
    · exact hmid.trans hopening.genuine.ordered
    · exact hlater.trans hordered'
  have hle := hname.le
  have hle' := hctors.le
  have hopened := hopening.genuine.ordered
  exact Places.pure (.of_merge hkeyword hclose.genuine (Nat.le_refl _) (by omega) (by omega) hparts
    (Nat.le_refl _))

/-! Matches -/

omit hend in
/-- The end of a block is sought without looking at what is in it. -/
theorem placed_closeBlock {opening : Span} (hopening : opening.Genuine source)
    (hlo : opening.stop.offset ≤ lo) (depth : Nat) {ts : List Token}
    (hts : Token.From source lo ts) :
    (closeBlock stop opening depth ts).Placed source fun s hi =>
      Layout.Row source opening.start.offset [.piece s []] hi := by
  -- token by token, none of which is kept but the brace that closes the block
  induction ts generalizing depth lo with
  | nil =>
    refine ⟨by simp [closeBlock], fun e he => ?_, by simp [closeBlock]⟩
    cases he
    exact SyntaxError.genuine_unclosedBlock hopening hstop
  | cons t ts ih =>
    unfold closeBlock
    split
    · exact ih hlo _ hts.tail
    · refine ⟨by simp, by simp, fun s hs => ?_⟩
      cases hs
      obtain ⟨ht, hgenuine, hrest⟩ := hts
      have hordered := hopening.ordered
      have hordered' := hgenuine.genuine.ordered
      exact ⟨_, hrest, .of_merge hopening hgenuine.genuine (Nat.le_refl _) (by omega) (by omega)
        (show _ ≤ _ by omega) (Nat.le_refl _)⟩
    · exact ih hlo _ hts.tail
    · exact ih hlo _ hts.tail

/-- A block is a piece without parts, since nothing of its body is kept. -/
theorem lays_block : Lays source (fun s => [.piece s []]) (block stop) := by
  intro lo
  refine (places_expect hstop hend (by decide) _).bind ?_
  rintro opening - ⟨hlo, hopening, rfl⟩ ts hts
  obtain ⟨hnotes, herror, hok⟩ :=
    placed_closeBlock hstop hopening.genuine (Nat.le_refl _) 0 hts
  refine ⟨hnotes, herror, fun s hs => ?_⟩
  obtain ⟨hi, hhi, hrow⟩ := hok s hs
  exact ⟨hi, hhi, hrow.mono_left hlo⟩

/-- **An arm** reaches from its pattern to the end of its body. -/
theorem lays_arm : Lays source (fun a => [a.layout]) (arm stop) := by
  intro lo
  refine (lays_pattern hstop hend maxNesting lo).bind fun pattern mid hpattern => ?_
  refine (places_expect hstop hend (by decide) _).bind ?_
  rintro arrow - ⟨hmid, harrow, rfl⟩
  refine (lays_block hstop hend _).bind fun body hi hbody => ?_
  -- the layout of a pattern begins and ends where the pattern does
  have hspan : pattern.layout.span = pattern.span := by
    cases pattern <;> rfl
  have hgenuine : pattern.span.Genuine source := hspan ▸ hpattern.2.1.genuine
  have hbefore : pattern.span.stop.offset ≤ mid := hspan ▸ hpattern.2.2
  have harrowed := harrow.genuine.ordered
  have hbody' : arrow.span.stop.offset ≤ body.start.offset := hbody.1
  have hgenuine' : body.Genuine source := hbody.2.1.genuine
  have hordered := hgenuine.ordered
  have hordered' := hgenuine'.ordered
  refine Places.pure (.of_merge hgenuine hgenuine' (hspan ▸ hpattern.1) (by omega) (by omega) ?_
    hbody.2.2)
  refine ⟨Nat.le_of_eq (by rw [hspan]), hpattern.2.1, ?_⟩
  rw [hspan]
  exact .single (show _ ≤ body.start.offset by omega) hbody.2.1 (Nat.le_refl _)

/-- One round of the arms of a match. A comma behind the arm belongs to the round, not to the arm.
-/
theorem lays_armRound : Lays source (fun o => o.toList.map Arm.layout) (armRound stop) := by
  intro lo
  -- an arm, and the comma behind it if there is one
  have harm : Places source lo
      (arm stop >>= fun a => next stop .comma >>= fun b =>
        if b = true then skip >>= fun _ => Pure.pure (some a) else Pure.pure (some a))
      fun o hi => Layout.Row source lo (o.toList.map Arm.layout) hi := by
    refine (lays_arm hstop hend lo).bind fun a mid ha => ?_
    exact Places.ifNext stop _ (Places.pure ha) (Places.pure ha)
  refine Places.peek (fun t ts hts => ?_) ?_
  · split
    · exact .pure hts (Nat.le_refl lo)
    · exact harm (t :: ts) hts
  · rw [if_pos (by rw [hend]; rfl)]
    exact .pure (show Token.From source lo [] from trivial) (Nat.le_refl lo)

/-- **A match** reaches from its keyword to its closing brace, both of which are parts of it. -/
theorem places_matchExpr {keyword : Span} (hkeyword : keyword.Genuine source) :
    Places source keyword.stop.offset (matchExpr stop keyword) fun m hi =>
      Layout.Row source keyword.start.offset [m.layout] hi := by
  refine (lays_expr hstop hend maxNesting _).bind fun scrutinee mid hscrutinee => ?_
  refine (places_expect hstop hend (by decide) _).bind ?_
  rintro opening - ⟨hmid, hopening, rfl⟩
  refine ((lays_armRound hstop hend).many _).bind fun arms later harms => ?_
  refine (places_expect hstop hend (by decide) _).bind ?_
  rintro close - ⟨hlater, hclose, rfl⟩
  have hordered := hkeyword.ordered
  have hordered' := hclose.genuine.ordered
  have hclosing : Layout.Row source later [.piece close.span []] close.span.stop.offset :=
    .single hlater (.of_row hclose.genuine hordered') (Nat.le_refl _)
  -- keyword, expression, arms and closing brace stand one behind the other
  have hparts : Layout.Row source keyword.start.offset (.piece keyword [] :: scrutinee.layout ::
      (arms.map Arm.layout ++ [.piece close.span []])) close.span.stop.offset := by
    refine ⟨Nat.le_refl _, .of_row hkeyword hordered, ?_⟩
    refine hscrutinee.append ((harms.append hclosing).mono_left ?_)
    exact hmid.trans hopening.genuine.ordered
  have hle := hscrutinee.le
  have hle' := harms.le
  have hopened := hopening.genuine.ordered
  exact Places.pure (.of_merge hkeyword hclose.genuine (Nat.le_refl _) (by omega) (by omega) hparts
    (Nat.le_refl _))

/-- **An item lies between its first token and the tokens that are left.** -/
theorem places_item {t : Token} (ht : t.Stands source) :
    Places source t.span.stop.offset (item stop t) fun i hi =>
      Layout.Row source t.span.start.offset [i.layout] hi := by
  unfold item
  split
  · exact (places_enumDecl hstop hend ht.genuine).bind fun d hi hd => Places.pure hd
  · exact (places_matchExpr hstop hend ht.genuine).bind fun m hi hm => Places.pure hm
  · exact Places.fail (SyntaxError.genuine_unexpected ht.genuine _)

end Grammar

end Reader

/-! ### Whole programs -/

namespace Program

variable {source : Source} {stop : Token}

/-- The items of a token sequence stand in a row, and the errors met in it are at genuine spans. -/
theorem row_itemsFrom (hstop : stop.span.Genuine source) (hend : stop.kind = .endOfInput) {lo : Nat}
    {ts : List Token} (hts : Token.From source lo ts) :
    (∃ hi, Layout.Row source lo ((itemsFrom stop ts).1.map Item.layout) hi) ∧
      ∀ e ∈ (itemsFrom stop ts).2, e.Genuine source := by
  -- item by item, each of which begins with a token of its own
  induction ts using items_induction stop generalizing lo with
  | nil =>
    rw [itemsFrom]
    exact ⟨⟨lo, Nat.le_refl lo⟩, List.forall_mem_nil _⟩
  | ok t ts item hr ih =>
    obtain ⟨hlo, ht, hrest⟩ := hts
    obtain ⟨hnotes, -, hok⟩ := Reader.places_item hstop hend ht ts hrest
    obtain ⟨mid, hmid, hrow⟩ := hok item hr
    obtain ⟨⟨hi, hitems⟩, herrors⟩ := ih hmid
    rw [itemsFrom_of_ok hr]
    exact ⟨⟨hi, (hrow.mono_left hlo).append hitems⟩,
      List.forall_mem_append.mpr ⟨hnotes, herrors⟩⟩
  | error t ts e hr ih =>
    obtain ⟨hlo, ht, hrest⟩ := hts
    obtain ⟨hnotes, herror, -⟩ := Reader.places_item hstop hend ht ts hrest
    -- nothing is added to the row, which goes on at a later token
    have hlater : Token.From source lo (resume ((Reader.item stop t).run ts).rest) :=
      (hrest.mono (hlo.trans ht.genuine.ordered)).sublist (resume_rest_suffix stop t ts).sublist
    obtain ⟨hitems, herrors⟩ := ih hlater
    rw [itemsFrom_of_error hr]
    exact ⟨hitems, List.forall_mem_append.mpr
      ⟨hnotes, List.forall_mem_cons.mpr ⟨herror e hr, herrors⟩⟩⟩

end Program

namespace Source

variable (source : Source)

/-- The tokens of a source stand one behind the other, from its beginning on. -/
theorem from_tokens : Token.From source 0 source.tokens := by
  -- from any place on, since the lexemes behind the first are placed further on
  have hplace : ∀ p ls, (∀ t ∈ Token.place source.path p ls, t.Stands source) →
      Token.From source p.offset (Token.place source.path p ls) := by
    intro p ls h
    induction ls generalizing p with
    | nil => trivial
    | cons l ls ih =>
      rw [Token.place_cons] at h ⊢
      obtain ⟨hl, hls⟩ := List.forall_mem_cons.mp h
      exact ⟨Nat.le_refl _, hl, ih _ hls⟩
  refine hplace .first _ fun t ht => ?_
  obtain ⟨hgenuine, hspells⟩ := genuine_of_mem_tokens ht
  exact ⟨hgenuine, hspells⟩

/-- **How a program lies in its source.** Its items are sound and stand one behind the other, and
the errors met in it are at genuine spans. -/
theorem row_program : (∃ hi, Layout.Row source 0 source.program.1.layouts hi) ∧
    ∀ e ∈ source.program.2, e.Genuine source :=
  Program.row_itemsFrom source.genuine_endSpan rfl (source.from_tokens.sublist List.filter_sublist)

end Source

end MatchCheck
