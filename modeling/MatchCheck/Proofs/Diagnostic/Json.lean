import MatchCheck.Diagnostic.Json
import MatchCheck.Proofs.Json.Written

/-!
# Findings survive being written

A finding that is written as JSON and read again is the same finding
(`Diagnostic.read_written`). Writing and reading are two separate descriptions of the format: what
is left out when it is written, an empty list or a place that a note does not have, has to be put
back when it is read.

The numbers of a span are written with all their digits but read only if they are machine words. So
`Json.Returns` says for each kind of data that what was written is read as it was exactly if all its
numbers are such words, and is not read at all otherwise.
-/

namespace MatchCheck

namespace Json

variable {α : Type}

/-- What is written by `write` is read by `read` as it was, exactly if it fits. -/
def Returns (read : Json → Option α) (write : α → Json) (fits : α → Prop) : Prop :=
  ∀ a b, read (write a) = some b ↔ fits a ∧ b = a

/-- A number is read as it is if it is a machine word, and not at all otherwise. -/
theorem word?_natural {n k : Nat} : (natural n).word? = some k ↔ n < Nat.pow 2 64 ∧ k = n := by
  rw [word?, Option.ite_none_right_eq_some, Option.some.injEq, eq_comm]

/-- An array is given back if all its items are. -/
theorem Returns.items {read : Json → Option α} {write : α → Json} {fits : α → Prop}
    (h : Returns read write fits) :
    Returns (items? read) (fun as => array (as.map write)) fun as => ∀ a ∈ as, fits a := by
  intro as bs
  simp only [items?]
  -- item by item: a list is given back exactly if its first item and the rest are
  induction as generalizing bs with
  | nil => simp [eq_comm]
  | cons a as ih =>
    simp only [List.map_cons, List.mapM_cons, Option.bind_eq_bind, Option.bind_eq_some_iff, h a, ih,
      Option.pure_def, Option.some.injEq, List.forall_mem_cons]
    constructor
    · rintro ⟨_, ⟨ha, rfl⟩, _, ⟨has, rfl⟩, rfl⟩
      exact ⟨⟨ha, has⟩, rfl⟩
    · rintro ⟨⟨ha, has⟩, rfl⟩
      exact ⟨a, ⟨ha, rfl⟩, as, ⟨has, rfl⟩, rfl⟩

/-- Data is returned if a part of it is and the rest is put around that part again. -/
theorem Returns.around {β : Type} {read : Json → Option α} {write : α → Json} {fits : α → Prop}
    {readPart : Json → Option β} {writePart : β → Json} {fitsPart : β → Prop}
    (h : Returns readPart writePart fitsPart) (part : α → β) (put : α → β → α)
    (hput : ∀ a, put a (part a) = a) (hfits : ∀ a, fits a ↔ fitsPart (part a))
    (hread : ∀ a, read (write a) = (readPart (writePart (part a))).map (put a)) :
    Returns read write fits := by
  intro a b
  simp only [hread, Option.map_eq_some_iff, h (part a), hfits]
  -- the part is read back, and put in its place again
  constructor
  · rintro ⟨_, ⟨ha, rfl⟩, rfl⟩
    exact ⟨ha, hput a⟩
  · rintro ⟨ha, rfl⟩
    exact ⟨part b, ⟨ha, rfl⟩, hput b⟩

end Json

/-! ### Spans -/

/-- The numbers of a place are machine words. -/
def Position.Fits (p : Position) : Prop :=
  p.offset < Nat.pow 2 64 ∧ p.line < Nat.pow 2 64 ∧ p.column < Nat.pow 2 64

/-- The numbers of a span are machine words. -/
def Span.Fits (s : Span) : Prop :=
  s.start.Fits ∧ s.stop.Fits

/-- A span is given back exactly if its numbers are machine words. -/
theorem Span.returns : Json.Returns ofJson? toJson Fits := by
  intro s t
  -- all fields are found by their names
  have hread : ofJson? s.toJson = do
      return ⟨s.file, ⟨← (Json.natural s.start.offset).word?, ← (Json.natural s.start.line).word?,
        ← (Json.natural s.start.column).word?⟩, ⟨← (Json.natural s.stop.offset).word?,
        ← (Json.natural s.stop.line).word?, ← (Json.natural s.stop.column).word?⟩⟩ := by
    simp [ofJson?, toJson, Json.record?, Json.only?, Json.text?]
  rw [hread]
  simp only [Option.bind_eq_bind, Option.bind_eq_some_iff, Json.word?_natural, Option.pure_def,
    Option.some.injEq]
  constructor
  · rintro ⟨_, ⟨h₁, rfl⟩, _, ⟨h₂, rfl⟩, _, ⟨h₃, rfl⟩, _, ⟨h₄, rfl⟩, _, ⟨h₅, rfl⟩, _, ⟨h₆, rfl⟩, rfl⟩
    exact ⟨⟨⟨h₁, h₂, h₃⟩, h₄, h₅, h₆⟩, rfl⟩
  · rintro ⟨⟨⟨h₁, h₂, h₃⟩, h₄, h₅, h₆⟩, rfl⟩
    exact ⟨_, ⟨h₁, rfl⟩, _, ⟨h₂, rfl⟩, _, ⟨h₃, rfl⟩, _, ⟨h₄, rfl⟩, _, ⟨h₅, rfl⟩, _, ⟨h₆, rfl⟩, rfl⟩

/-! ### Notes and suggestions -/

/-- The numbers of a note are machine words. -/
def Note.Fits (n : Note) : Prop :=
  ∀ s ∈ n.span, s.Fits

/-- A note is given back, with or without a place. -/
theorem Note.returns : Json.Returns ofJson? toJson Fits := by
  rintro ⟨message, span⟩ m
  cases span with
  | none => simp [ofJson?, toJson, Json.record?, Json.only?, Json.text?, Fits, eq_comm]
  | some s =>
    have hread : ofJson? (toJson ⟨message, some s⟩) =
        (Span.ofJson? s.toJson).map fun s => ⟨message, some s⟩ := by
      -- a place is an object and not null
      obtain ⟨members, hs⟩ : ∃ members, s.toJson = .object members := ⟨_, rfl⟩
      simp only [toJson, Option.map_some, hs]
      cases hspan : Span.ofJson? (.object members) <;>
        simp [ofJson?, Json.record?, Json.only?, Json.text?, hspan]
    simp only [hread, Option.map_eq_some_iff, Span.returns s, Fits, Option.mem_some_iff, forall_eq']
    constructor
    · rintro ⟨_, ⟨hs, rfl⟩, rfl⟩
      exact ⟨hs, rfl⟩
    · rintro ⟨hs, rfl⟩
      exact ⟨s, ⟨hs, rfl⟩, rfl⟩

/-- The numbers of an edit are machine words. -/
def Edit.Fits (e : Edit) : Prop :=
  e.span.Fits

theorem Edit.returns : Json.Returns ofJson? toJson Fits := by
  refine Span.returns.around Edit.span (fun e s => ⟨s, e.replacement⟩) (fun _ => rfl)
    (fun _ => Iff.rfl) fun e => ?_
  cases hspan : Span.ofJson? e.span.toJson <;>
    simp [ofJson?, toJson, Json.record?, Json.only?, Json.text?, hspan]

/-- The numbers of a suggestion are machine words. -/
def Suggestion.Fits (s : Suggestion) : Prop :=
  ∀ e ∈ s.edits, e.Fits

theorem Suggestion.returns : Json.Returns ofJson? toJson Fits := by
  refine Edit.returns.items.around Suggestion.edits (fun s es => ⟨s.title, es⟩) (fun _ => rfl)
    (fun _ => Iff.rfl) fun s => ?_
  cases hedits : Json.items? Edit.ofJson? (.array (s.edits.map Edit.toJson)) <;>
    simp [ofJson?, toJson, Json.record?, Json.only?, Json.text?, hedits]

/-! ### Findings -/

namespace Diagnostic

/-- The numbers of a finding are machine words. -/
def Fits (d : Diagnostic) : Prop :=
  d.span.Fits ∧ (∀ n ∈ d.notes, n.Fits) ∧ ∀ s ∈ d.suggestions, s.Fits

/-- A list that is left out when it is empty is read as if it had been written. -/
theorem read_parts (d : Diagnostic) :
    ofJson? d.toJson = do
      return ⟨d.code, d.severity, d.message, ← Span.ofJson? d.span.toJson,
        ← Json.items? Note.ofJson? (.array (d.notes.map Note.toJson)),
        ← Json.items? Suggestion.ofJson? (.array (d.suggestions.map Suggestion.toJson))⟩ := by
  obtain ⟨code, severity, message, span, notes, suggestions⟩ := d
  -- each of the two lists may be left out, which makes four forms of the object
  cases notes <;> cases suggestions <;>
    simp [ofJson?, toJson, listMember, optionalItems?, Severity.ofJson?, Json.record?, Json.only?,
      Json.text?, Json.items?]

/-- **A finding is given back exactly if all its numbers are machine words.** -/
theorem returns : Json.Returns ofJson? toJson Fits := by
  intro d e
  simp only [read_parts, Option.bind_eq_bind, Option.bind_eq_some_iff, Span.returns d.span,
    Note.returns.items d.notes, Suggestion.returns.items d.suggestions, Option.pure_def,
    Option.some.injEq]
  constructor
  · rintro ⟨_, ⟨hspan, rfl⟩, _, ⟨hnotes, rfl⟩, _, ⟨hsuggestions, rfl⟩, rfl⟩
    exact ⟨⟨hspan, hnotes, hsuggestions⟩, rfl⟩
  · rintro ⟨⟨hspan, hnotes, hsuggestions⟩, rfl⟩
    exact ⟨_, ⟨hspan, rfl⟩, _, ⟨hnotes, rfl⟩, _, ⟨hsuggestions, rfl⟩, rfl⟩

/-! ### The texts of findings -/

end Diagnostic

namespace Json

/-- Without blanks, the items of an array are divided by commas. -/
theorem compact_array (js : List Json) :
    (array js).compact = '[' :: [','].intercalate (js.map compact) ++ [']'] := by
  -- commas stand in front of all items but the first
  have hitems (j : Json) (js : List Json) :
      j.compact ++ compactItems js = [','].intercalate ((j :: js).map compact) ++ [']'] := by
    induction js generalizing j with
    | nil => simp [compactItems]
    | cons i js ih => simp [compactItems, ih i]
  cases js with
  | nil => rfl
  | cons j js => exact congrArg ('[' :: ·) (hitems j js)

theorem Plain.array_map {α : Type} {write : α → Json} (h : ∀ a, (write a).Plain) (as : List α) :
    (Json.array (as.map write)).Plain :=
  .array (List.forall_mem_map.mpr fun a _ => h a)

end Json

/-- A span is written with texts and natural numbers only. -/
theorem Span.plain_toJson (s : Span) : s.toJson.Plain := by
  refine .object ?_
  simp only [List.forall_mem_cons, List.not_mem_nil, false_imp_iff, implies_true, and_true]
  exact ⟨.text _, .natural _, .natural _, .natural _, .natural _, .natural _, .natural _⟩

theorem Note.plain_toJson (n : Note) : n.toJson.Plain := by
  refine .object (List.forall_mem_cons.mpr ⟨.text _, ?_⟩)
  simp [Span.plain_toJson]

theorem Edit.plain_toJson (e : Edit) : e.toJson.Plain := by
  refine .object ?_
  simp [Span.plain_toJson, Json.Plain.text]

theorem Suggestion.plain_toJson (s : Suggestion) : s.toJson.Plain := by
  refine .object ?_
  simp [Json.Plain.array_map Edit.plain_toJson, Json.Plain.text]

namespace Diagnostic

/-- A list that may be left out is plain if it is where it is written. -/
theorem plain_listMember {name : String} {js : List Json} (h : (Json.array js).Plain) :
    ∀ m ∈ listMember name js, m.2.Plain := by
  unfold listMember
  split
  · simp
  · simpa using h

/-- **A finding is written plainly**, with natural numbers, texts and lists only. -/
theorem plain_toJson (d : Diagnostic) : d.toJson.Plain := by
  refine .object (List.forall_mem_append.mpr ⟨List.forall_mem_append.mpr ⟨?_, ?_⟩, ?_⟩)
  · simp [Span.plain_toJson, Json.Plain.text]
  · exact plain_listMember (.array_map Note.plain_toJson _)
  · exact plain_listMember (.array_map Suggestion.plain_toJson _)

/-- Reading the text of a finding comes to reading the value that was written. -/
theorem ofJsonText?_jsonText (d : Diagnostic) : ofJsonText? d.jsonText = ofJson? d.toJson := by
  rw [ofJsonText?, jsonText, String.toList_ofList,
    Json.ofChars?_of_written (Json.written_compact d.plain_toJson), Option.bind_some]

/-- The text of several findings is that of an array. -/
theorem toList_listJsonText (ds : List Diagnostic) :
    (listJsonText ds).toList = (Json.array (ds.map toJson)).compact := by
  have htexts : (ds.map jsonText).map String.toList = (ds.map toJson).map Json.compact := by
    simp [jsonText]
  rw [listJsonText, String.toList_append, String.toList_append, String.toList_intercalate, htexts,
    Json.compact_array]
  rfl

/-- **Findings survive being written.** A finding whose numbers are machine words is read from its
text as it was, and several findings are read from theirs in their order. -/
theorem read_written :
    (∀ d : Diagnostic, d.Fits → ofJsonText? d.jsonText = some d) ∧
      ∀ ds : List Diagnostic, (∀ d ∈ ds, d.Fits) →
        (Json.ofChars? (listJsonText ds).toList).bind (Json.items? ofJson?) = some ds := by
  constructor
  · intro d hd
    rw [ofJsonText?_jsonText]
    exact (returns d d).mpr ⟨hd, rfl⟩
  · intro ds hds
    -- a list of findings is an array of their values
    rw [toList_listJsonText,
      Json.ofChars?_of_written (Json.written_compact (.array_map plain_toJson ds)),
      Option.bind_some]
    exact (returns.items ds ds).mpr ⟨hds, rfl⟩

/-- A finding with everything that has to be escaped, with the largest numbers, and with a note that
has no place and a suggestion that has no edits. -/
def intricate : Diagnostic :=
  let last : Position := ⟨Nat.pow 2 64 - 1, Nat.pow 2 64 - 1, Nat.pow 2 64 - 1⟩
  let span : Span := ⟨"a \"b\"\\c.txt", ⟨0, 1, 1⟩, last⟩
  ⟨"E\x00", .hint, "\"\\/\x08\x0c\n\r\t\x1f\x7f é 😀 \\u0041", span,
    [⟨"", none⟩, ⟨"\n", some span⟩],
    [⟨"none", []⟩, ⟨"two", [⟨span, "\x01"⟩, ⟨.ofFile "", "\x7b\x7d[],:"⟩]⟩]⟩

/-- Such a finding is read as it was, alone and beside one that has no lists at all. -/
theorem read_written_intricate :
    intricate.Fits ∧ ofJsonText? intricate.jsonText = some intricate ∧
      (Json.ofChars? (listJsonText [intricate, .error .unknownType "" (.ofFile "")]).toList).bind
        (Json.items? ofJson?) = some [intricate, .error .unknownType "" (.ofFile "")] := by
  have hintricate : intricate.Fits := by
    simp [intricate, Fits, Note.Fits, Suggestion.Fits, Edit.Fits, Span.Fits, Position.Fits,
      Span.ofFile, Position.first]
  have hbare : (error .unknownType "" (.ofFile "")).Fits := by
    simp [error, Fits, Span.Fits, Position.Fits, Span.ofFile, Position.first]
  refine ⟨hintricate, read_written.1 _ hintricate, read_written.2 _ ?_⟩
  exact List.forall_mem_cons.mpr ⟨hintricate, List.forall_mem_singleton.mpr hbare⟩

end Diagnostic

end MatchCheck
