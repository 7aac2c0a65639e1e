import Mathlib.Dynamics.FixedPoints.Basic
import MatchCheck.Proofs.Check.Relocated
import MatchCheck.Proofs.Program.Nesting

/-!
# Every finding is at a genuine span

The analysis finds no places of its own. A program whose spans all stay where they are is relocated
to itself (`Program.relocate_eq_self`), and then its findings are relocated to themselves. So let
spans of one kind stay and let all others be put at some span of this kind. If all spans of a
program are of the kind, each finding about it is the same with all its spans put so, and they are
of the kind as well. One place is made anew, the front of the closing brace where missing arms are
added, and therefore the kind has to be closed under going to the front
(`Program.forall_spans_check`).

With the spans that a source gives, and with what is known of the layout of programs, this says that
the places of everything that is read and of everything that is reported are genuine.
-/

namespace MatchCheck

/-! ### All spans of a program -/

/-- All spans in a layout are of one kind. -/
inductive Layout.All (G : Span → Prop) : Layout → Prop
  | name {i : Ident} (h : G i.span) : All G (.name i)
  | piece {s : Span} {parts : List Layout} (h : G s) (hparts : ∀ p ∈ parts, All G p) :
      All G (.piece s parts)

namespace Layout

variable {G G' : Span → Prop} {l : Layout}

/-- Spans of a kind are spans of every wider kind. -/
theorem All.imp (hG : ∀ s, G s → G' s) (h : l.All G) : l.All G' := by
  induction h with
  | name h => exact .name (hG _ h)
  | piece h _ ih => exact .piece (hG _ h) ih

theorem All.span (h : l.All G) : G l.span := by
  cases h <;> assumption

/-- All spans in a sound layout are genuine. -/
theorem Sound.all {source : Source} (h : l.Sound source) : l.All (Span.Genuine source) := by
  induction h with
  | name genuine _ => exact .name genuine
  | piece genuine _ _ _ ih => exact .piece genuine ih

end Layout

/-! ### Programs that are relocated to themselves -/

section Self

variable {g : Span → Span}

theorem Ident.move_eq_self {i : Ident} (h : (Layout.name i).All (Function.IsFixedPt g)) :
    i.move g = i :=
  congrArg (Ident.mk i.name) h.span

mutual

/-- An expression is relocated to itself if all its spans stay. -/
theorem Expr.relocate_eq_self : ∀ e : Expr,
    e.layout.All (Function.IsFixedPt g) → e.relocate g g = e
  | .apply span name args, h => by
    cases h with
    | piece hspan hparts =>
      obtain ⟨hname, hargs⟩ := List.forall_mem_cons.mp hparts
      rw [relocate, hspan.eq, Ident.move_eq_self hname, relocateAll_eq_self args hargs]

theorem Expr.relocateAll_eq_self : ∀ es : List Expr,
    (∀ p ∈ layouts es, p.All (Function.IsFixedPt g)) → relocateAll g g es = es
  | [], _ => rfl
  | e :: es, h => by
    obtain ⟨he, hes⟩ := List.forall_mem_cons.mp h
    rw [relocateAll, e.relocate_eq_self he, relocateAll_eq_self es hes]

end

mutual

/-- A pattern is relocated to itself if all its spans stay. -/
theorem Pattern.relocate_eq_self : ∀ p : Pattern,
    p.layout.All (Function.IsFixedPt g) → p.relocate g g = p
  | .wildcard span, h => congrArg Pattern.wildcard h.span.eq
  | .ctor span name args, h => by
    cases h with
    | piece hspan hparts =>
      obtain ⟨hname, hargs⟩ := List.forall_mem_cons.mp hparts
      rw [relocate, hspan.eq, Ident.move_eq_self hname, relocateAll_eq_self args hargs]

theorem Pattern.relocateAll_eq_self : ∀ ps : List Pattern,
    (∀ p ∈ layouts ps, p.All (Function.IsFixedPt g)) → relocateAll g g ps = ps
  | [], _ => rfl
  | p :: ps, h => by
    obtain ⟨hp, hps⟩ := List.forall_mem_cons.mp h
    rw [relocateAll, p.relocate_eq_self hp, relocateAll_eq_self ps hps]

end

/-- A list is relocated to itself if each of its pieces is. -/
theorem Layout.All.map_eq_self {α : Type} {f : α → α} {view : α → Layout} {as : List α}
    (hf : ∀ a, (view a).All (Function.IsFixedPt g) → f a = a)
    (h : ∀ p ∈ as.map view, p.All (Function.IsFixedPt g)) : as.map f = as := by
  have hfix : ∀ a ∈ as, f a = id a := fun a ha => hf a (h _ (List.mem_map_of_mem ha))
  rw [List.map_congr_left hfix, List.map_id]

/-- A constructor is relocated to itself if all its spans stay. -/
theorem CtorDecl.relocate_eq_self (c : CtorDecl) (h : c.layout.All (Function.IsFixedPt g)) :
    c.relocate g g = c := by
  obtain ⟨span, name, field⟩ := c
  cases h with
  | piece hspan hparts =>
    obtain ⟨hname, hfield⟩ := List.forall_mem_cons.mp hparts
    have hfield : field.map (Ident.move g) = field := by
      -- with a field or without one
      cases field with
      | none => rfl
      | some f => exact congrArg some (Ident.move_eq_self (hfield (.name f) (by simp)))
    rw [relocate, hspan.eq, Ident.move_eq_self hname, hfield]

theorem EnumDecl.relocate_eq_self (d : EnumDecl) (h : d.layout.All (Function.IsFixedPt g)) :
    d.relocate g g = d := by
  obtain ⟨span, name, ctors⟩ := d
  cases h with
  | piece hspan hparts =>
    obtain ⟨hname, hctors⟩ := List.forall_mem_cons.mp hparts
    rw [relocate, hspan.eq, Ident.move_eq_self hname,
      Layout.All.map_eq_self CtorDecl.relocate_eq_self hctors]

theorem Arm.relocate_eq_self (a : Arm) (h : a.layout.All (Function.IsFixedPt g)) :
    a.relocate g g = a := by
  obtain ⟨span, pattern, bodySpan⟩ := a
  cases h with
  | piece hspan hparts =>
    obtain ⟨hpattern, hbody⟩ := List.forall_mem_cons.mp hparts
    have hbody : g bodySpan = bodySpan := (hbody (.piece bodySpan []) (by simp)).span
    rw [relocate, hspan.eq, pattern.relocate_eq_self hpattern, hbody]

/-- A match is relocated to itself if all its spans stay. -/
theorem MatchExpr.relocate_eq_self (m : MatchExpr) (h : m.layout.All (Function.IsFixedPt g)) :
    m.relocate g g = m := by
  obtain ⟨span, keywordSpan, scrutinee, arms, closeSpan⟩ := m
  cases h with
  | piece hspan hparts =>
    -- the parts of the layout are taken off in the order in which they stand in it
    obtain ⟨hkeyword, hparts⟩ := List.forall_mem_cons.mp hparts
    obtain ⟨hscrutinee, hparts⟩ := List.forall_mem_cons.mp hparts
    obtain ⟨harms, hclose⟩ := List.forall_mem_append.mp hparts
    have hclose : g closeSpan = closeSpan := (hclose (.piece closeSpan []) (by simp)).span
    have hkeyword : g keywordSpan = keywordSpan := hkeyword.span
    rw [relocate, hspan.eq, hkeyword, scrutinee.relocate_eq_self hscrutinee,
      Layout.All.map_eq_self Arm.relocate_eq_self harms, hclose]

theorem Item.relocate_eq_self (item : Item) (h : item.layout.All (Function.IsFixedPt g)) :
    item.relocate g g = item := by
  cases item with
  | enumDecl d => exact congrArg Item.enumDecl (d.relocate_eq_self h)
  | matchExpr m => exact congrArg Item.matchExpr (m.relocate_eq_self h)

/-- **A program whose spans all stay is relocated to itself.** -/
theorem Program.relocate_eq_self (p : Program) (h : ∀ l ∈ p.layouts, l.All (Function.IsFixedPt g)) :
    p.relocate g g = p :=
  congrArg Program.mk (Layout.All.map_eq_self Item.relocate_eq_self h)

end Self

/-! ### The spans of findings -/

/-- Findings that are relocated to themselves have all their spans where relocating puts spans. -/
theorem Diagnostic.forall_spans_of_fixed {g : Span → Span} {G : Span → Prop} (hg : ∀ s, G (g s))
    {ds : List Diagnostic} (h : ds = ds.map (Diagnostic.relocate g)) :
    ∀ d ∈ ds, ∀ s ∈ d.spans, G s := by
  intro d hd s hs
  have hfix : d.relocate g = d := by
    have hmap : ds.map (Diagnostic.relocate g) = ds.map id := by rw [← h, List.map_id]
    exact List.map_inj_left.mp hmap d hd
  -- each span of the finding is one that relocating has put there
  rw [← hfix, spans_relocate] at hs
  obtain ⟨t, -, rfl⟩ := List.mem_map.mp hs
  exact hg t

/-- What is missing is reported at the keyword, the matched expression and the front of the closing
brace. -/
theorem MatchExpr.forall_spans_missingFinding {G : Span → Prop}
    (hfront : ∀ s, G s → G s.shrinkToStart) {m : MatchExpr} (hm : m.layout.All G)
    {sig : Signature} {options : CheckOptions} {d : Diagnostic}
    (hd : d ∈ m.missingFinding sig options) : ∀ s ∈ d.spans, G s := by
  obtain ⟨span, keywordSpan, scrutinee, arms, closeSpan⟩ := m
  cases hm with
  | piece _ hparts =>
    -- the layout has the keyword first, then the expression, the arms and the closing brace
    obtain ⟨hkeyword, hparts⟩ := List.forall_mem_cons.mp hparts
    obtain ⟨hscrutinee, hparts⟩ := List.forall_mem_cons.mp hparts
    have hclose := ((List.forall_mem_append.mp hparts).2 (.piece closeSpan []) (by simp)).span
    have hscrutinee : G scrutinee.span := by
      cases scrutinee
      exact hscrutinee.span
    obtain ⟨ty, missing, rfl⟩ := exists_of_mem_missingFinding hd
    have hspans : ∀ s ∈ [keywordSpan, scrutinee.span, closeSpan.shrinkToStart], G s := by
      intro s hs
      rcases List.mem_cons.mp hs with rfl | hs
      · exact hkeyword.span
      · rcases List.mem_pair.mp hs with rfl | rfl
        · exact hscrutinee
        · exact hfront _ hclose
    exact hspans

namespace Program

variable {G : Span → Prop} {p : Program}

/-- The matches of a program are laid out among its items. -/
theorem layout_mem_of_mem_matchExprs {m : MatchExpr} (hm : m ∈ p.matchExprs) :
    m.layout ∈ p.layouts := by
  obtain ⟨item, hitem, hm⟩ := List.mem_filterMap.mp hm
  cases item with
  | enumDecl d => cases hm
  | matchExpr m' =>
    cases hm
    exact List.mem_map_of_mem hitem

/-- **The analysis finds no places of its own.** If all spans of a program are of one kind, which is
closed under going to the front, then so are all spans of the findings about it. -/
theorem forall_spans_check (hfront : ∀ s, G s → G s.shrinkToStart) (hG : ∃ s, G s)
    (hp : ∀ l ∈ p.layouts, l.All G) (options : CheckOptions) :
    ∀ d ∈ p.check options, ∀ s ∈ d.spans, G s := by
  classical
  obtain ⟨s₀, hs₀⟩ := hG
  -- spans of the kind stay, and all others go to one of them
  let g : Span → Span := fun s => if G s then s else s₀
  have hstay : ∀ s, G s → g s = s := fun s hs => if_pos hs
  have hg : ∀ s, G (g s) := by
    intro s
    by_cases hs : G s
    · rwa [hstay s hs]
    · rwa [show g s = s₀ from if_neg hs]
  have hself : p.relocate g g = p := p.relocate_eq_self fun l hl => (hp l hl).imp hstay
  have hsig : p.signature.move g = p.signature := by rw [← p.signature_relocate g g, hself]
  intro d hd
  -- a finding is about a declaration or about a match
  rcases List.mem_append.mp hd with hd | hd
  · refine Diagnostic.forall_spans_of_fixed hg ?_ d (Diagnostic.mem_sortByStart.mp hd)
    rw [← p.map_diagnostic_declErrors_relocate g g, hself]
  · obtain ⟨m, hm, hd⟩ := List.mem_flatMap.mp hd
    have hlayout := hp _ (layout_mem_of_mem_matchExprs hm)
    have hfixed : m.misfits p.signature options =
        (m.misfits p.signature options).map (Diagnostic.relocate g) := by
      rw [← m.misfits_relocate, hsig, m.relocate_eq_self (hlayout.imp hstay)]
    rw [m.check_eq] at hd
    -- of a match, misfits and unreachable arms are relocated to themselves; missing cases are not
    rcases List.mem_append.mp hd with hd | hd
    · refine Diagnostic.forall_spans_of_fixed hg hfixed d ?_
      cases hoptions : options.redundantArms with
      | allow => simpa only [hoptions] using hd
      | warn =>
        rw [hoptions] at hd
        exact Diagnostic.mem_sortByStart.mp hd
    · exact m.forall_spans_missingFinding hfront hlayout (Option.mem_toList.mp hd)

end Program

/-- **Spans are genuine and nested.** Every piece of the program of a source, down to the names, is
at a span that the source gives, with its parts inside and one behind the other, and a name is what
the source says there; the items stand one behind the other; and every span of every finding about
the source is one that the source gives. -/
theorem Source.spans_genuine_and_nested (source : Source) (options : CheckOptions) :
    (∀ l ∈ source.program.1.layouts, l.Sound source) ∧
      source.program.1.layouts.Pairwise (fun l m => l.span.Before m.span) ∧
      ∀ d ∈ source.check options, ∀ s ∈ d.spans, s.Genuine source := by
  obtain ⟨⟨hi, hrow⟩, herrors⟩ := source.row_program
  refine ⟨hrow.sound, hrow.ordered, fun d hd => ?_⟩
  -- syntax errors were followed along the text, all other findings are made of the program
  rcases List.mem_append.mp hd with hd | hd
  · obtain ⟨e, he, rfl⟩ := List.mem_map.mp hd
    exact herrors e he
  · refine Program.forall_spans_check (fun s hs => hs.shrinkToStart) ?_ ?_ options d hd
    · exact ⟨_, source.genuine_endSpan⟩
    · exact fun l hl => (hrow.sound l hl).all

end MatchCheck
