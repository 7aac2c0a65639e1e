import MatchCheck.Proofs.Files.Ordered

/-!
# Well-formed trees

In a tree of directories names increase, so that none occurs twice, and each is the name of an entry
(`Directory.WellFormed`). Every change keeps this: putting an entry in its place, removing one and
changing a directory below (`Directory.WellFormed.put`, `.erase`, `.modify`), and with these writing
files and making and removing directories. A name that is written to is the last part of a path that
leads down, and so the name of an entry.

What is said about entries that are listed in any order and then put in their places is true of
every well-formed tree, as it is what its own entries are put together to
(`Directory.Ordered.arranged_eq`).
-/

namespace MatchCheck

/-- A name as entries have it: as a part of a path it is one step down. -/
def Path.IsName (name : String) : Prop :=
  Path.step? name = some (.name name)

instance (name : String) : Decidable (Path.IsName name) :=
  inferInstanceAs (Decidable (_ = _))

namespace Directory

/-- No name occurs twice in a directory or in one below it, and all are names of entries. -/
def Tidy : Directory → Prop
  | empty => True
  | file name _ rest => (Path.IsName name ∧ (rest.get? name).isNone) ∧ rest.Tidy
  | folder name entries rest =>
    (Path.IsName name ∧ (rest.get? name).isNone) ∧ entries.Tidy ∧ rest.Tidy

instance decidableTidy : (d : Directory) → Decidable d.Tidy
  | empty => .isTrue trivial
  | file _ _ rest =>
    have := decidableTidy rest
    inferInstanceAs (Decidable ((_ ∧ _) ∧ _))
  | folder _ entries rest =>
    have := decidableTidy entries
    have := decidableTidy rest
    inferInstanceAs (Decidable ((_ ∧ _) ∧ _ ∧ _))

/-- Each name in a directory and in those below it is the name of an entry. -/
def Named : Directory → Prop
  | empty => True
  | file name _ rest => Path.IsName name ∧ rest.Named
  | folder name entries rest => Path.IsName name ∧ entries.Named ∧ rest.Named

/-- **Well-formed directories.** -/
structure WellFormed (d : Directory) : Prop where
  /-- Names increase. -/
  ordered : d.Ordered
  /-- Names are those of entries. -/
  named : d.Named

end Directory

namespace Entry

/-- Each name below an entry is the name of an entry. -/
def Named : Entry → Prop
  | file _ => True
  | folder entries => entries.Named

/-- What is below an entry is well formed. -/
structure WellFormed (entry : Entry) : Prop where
  ordered : entry.Ordered
  named : entry.Named

theorem wellFormed_file (text? : Option String) : (file text?).WellFormed :=
  ⟨trivial, trivial⟩

theorem wellFormed_folder {entries : Directory} :
    (folder entries).WellFormed ↔ entries.WellFormed :=
  ⟨fun h => ⟨h.ordered, h.named⟩, fun h => ⟨h.ordered, h.named⟩⟩

end Entry

/-! ### Directories -/

namespace Directory

variable {d entries rest : Directory} {name : String} {names : List String} {entry : Entry}

/-- What each folder hands down to the folders in it holds of all folders below. -/
theorem find?_induction {P : Directory → Prop}
    (hstep : ∀ d name entries, P d → d.get? name = some (.folder entries) → P entries) (hd : P d)
    (h : d.find? names = some (.folder entries)) : P entries := by
  -- one step down for each name of the way
  induction names generalizing d with
  | nil =>
    cases h
    exact hd
  | cons name names ih =>
    rw [find?] at h
    split at h
    · next below hbelow => exact ih (hstep d name below hd hbelow) h
    · split at h <;> cases h
    · cases h

/-- Entry by entry: a tidy directory begins with a name that does not occur again. -/
theorem tidy_cons :
    (cons name entry rest).Tidy ↔ (Path.IsName name ∧ (rest.get? name).isNone) ∧
      (∀ entries, entry = .folder entries → entries.Tidy) ∧ rest.Tidy := by
  cases entry with
  | file text? => simp [cons, Tidy]
  | folder entries => simp [cons, Tidy]

/-- What is found in a tidy directory is tidy, and so is its name. -/
theorem Tidy.entry_of_get? (hd : d.Tidy) (h : d.get? name = some entry) :
    Path.IsName name ∧ ∀ entries, entry = .folder entries → entries.Tidy := by
  refine get?_induction (P := Tidy) (Q := fun n e => Path.IsName n ∧ ∀ entries,
    e = .folder entries → entries.Tidy) (fun n e rest htidy => ?_) hd h
  obtain ⟨⟨hn, -⟩, he, hrest⟩ := tidy_cons.mp htidy
  exact ⟨⟨hn, he⟩, hrest⟩

/-- A folder in a tidy directory is tidy. -/
theorem Tidy.of_get? (hd : d.Tidy) (h : d.get? name = some (.folder entries)) : entries.Tidy :=
  (hd.entry_of_get? h).2 entries rfl

/-- So is a folder further down. -/
theorem Tidy.of_find? (hd : d.Tidy) (h : d.find? names = some (.folder entries)) :
    entries.Tidy :=
  find?_induction (fun _ _ _ hsub hget => hsub.of_get? hget) hd h

/-- Entry by entry: each name is that of an entry. -/
theorem named_cons :
    (cons name entry rest).Named ↔ Path.IsName name ∧ entry.Named ∧ rest.Named := by
  cases entry with
  | file text? => simp [cons, Named, Entry.Named]
  | folder entries => exact Iff.rfl

theorem wellFormed_empty : empty.WellFormed :=
  ⟨trivial, trivial⟩

/-- Entry by entry: a well-formed directory begins with its least name. -/
theorem wellFormed_cons :
    (cons name entry rest).WellFormed ↔
      (∀ n, (rest.get? n).isSome → name < n) ∧ Path.IsName name ∧ entry.WellFormed ∧
        rest.WellFormed := by
  constructor
  · rintro ⟨hordered, hnamed⟩
    obtain ⟨hfirst, hentry, hrest⟩ := ordered_cons.mp hordered
    obtain ⟨hname, hentry', hrest'⟩ := named_cons.mp hnamed
    exact ⟨hfirst, hname, ⟨hentry, hentry'⟩, hrest, hrest'⟩
  · rintro ⟨hfirst, hname, hentry, hrest⟩
    exact ⟨ordered_cons.mpr ⟨hfirst, hentry.ordered, hrest.ordered⟩,
      named_cons.mpr ⟨hname, hentry.named, hrest.named⟩⟩

/-- In front of entries with greater names stands no entry of the same name. -/
theorem isNone_get?_of_forall_lt (h : ∀ n, (rest.get? n).isSome → name < n) :
    (rest.get? name).isNone := by
  rw [Option.isNone_iff_eq_none, ← Option.not_isSome_iff_eq_none]
  exact fun hsome => String.lt_irrefl name (h name hsome)

/-- **No name occurs twice in a well-formed directory.** -/
theorem WellFormed.tidy (h : d.WellFormed) : d.Tidy := by
  obtain ⟨hordered, hnamed⟩ := h
  -- names increase, so that none of them comes again further back
  induction d with
  | empty => trivial
  | file name text? rest ih =>
    obtain ⟨hfirst, hordered⟩ := hordered
    obtain ⟨hname, hnamed⟩ := hnamed
    exact ⟨⟨hname, isNone_get?_of_forall_lt hfirst⟩, ih hordered hnamed⟩
  | folder name entries rest ihentries ihrest =>
    obtain ⟨hfirst, hordered, hordered'⟩ := hordered
    obtain ⟨hname, hnamed, hnamed'⟩ := hnamed
    exact ⟨⟨hname, isNone_get?_of_forall_lt hfirst⟩, ihentries hordered hnamed,
      ihrest hordered' hnamed'⟩

/-- An entry that comes first in the order of names is put in front. -/
theorem put_eq_cons_of_forall_lt (h : ∀ n, (d.get? n).isSome → name < n) :
    d.put name entry = cons name entry d := by
  induction d using inductionOnCons with
  | empty => rfl
  | cons n e rest _ =>
    have hlt : name < n := h n (by rw [get?_cons_self]; rfl)
    have hne : n ≠ name := fun heq => String.lt_irrefl name (heq ▸ hlt)
    rw [put_cons, if_neg hne, if_pos hlt]

/-- **A directory in order is what its own entries are put together to.** -/
theorem Ordered.arranged_eq (h : d.Ordered) : d.arranged = d := by
  -- each entry comes before all behind it, so that its place is in front of them
  induction d with
  | empty => rfl
  | file name text? rest ih =>
    obtain ⟨hfirst, hrest⟩ := h
    rw [arranged, ih hrest, put_eq_cons_of_forall_lt hfirst]
    rfl
  | folder name entries rest ihentries ihrest =>
    obtain ⟨hfirst, hentries, hrest⟩ := h
    rw [arranged, ihentries hentries, ihrest hrest, put_eq_cons_of_forall_lt hfirst]
    rfl

/-- To put an entry in its place brings no other name about. -/
theorem Named.put (hd : d.Named) (hname : Path.IsName name) (hentry : entry.Named) :
    (d.put name entry).Named := by
  induction d using inductionOnCons with
  | empty => exact named_cons.mpr ⟨hname, hentry, trivial⟩
  | cons n e rest ih =>
    obtain ⟨hn, he, hrest⟩ := named_cons.mp hd
    rw [put_cons]
    -- it replaces the entry of its name, stands in front, or goes further back
    split
    · exact named_cons.mpr ⟨hname, hentry, hrest⟩
    · split
      · exact named_cons.mpr ⟨hname, hentry, hd⟩
      · exact named_cons.mpr ⟨hn, he, ih hrest⟩

/-- Whatever the order in which tidy entries are listed, they make up a well-formed directory. -/
theorem Tidy.wellFormed_arranged (h : d.Tidy) : d.arranged.WellFormed := by
  -- it is in order however it was listed; names are followed through the entries
  refine ⟨d.ordered_arranged, ?_⟩
  induction d with
  | empty => trivial
  | file name text? rest ih =>
    obtain ⟨⟨hname, -⟩, hrest⟩ := h
    exact (ih hrest).put hname trivial
  | folder name entries rest ihentries ihrest =>
    obtain ⟨⟨hname, -⟩, hentries, hrest⟩ := h
    have hbelow : (Entry.folder entries.arranged).Named := ihentries hentries
    exact (ihrest hrest).put hname hbelow

/-- **Putting an entry in its place** keeps a directory well formed. -/
theorem WellFormed.put (hd : d.WellFormed) (hname : Path.IsName name) (hentry : entry.WellFormed) :
    (d.put name entry).WellFormed :=
  ⟨hd.ordered.put hentry.ordered name, hd.named.put hname hentry.named⟩

/-- What is left when an entry is removed was there before. -/
theorem isSome_get?_of_erase {n : String} (h : ((d.erase name).get? n).isSome) :
    (d.get? n).isSome := by
  induction d using inductionOnCons with
  | empty => exact h
  | cons m e rest ih =>
    rw [erase_cons] at h
    rw [get?_cons]
    split
    · rfl
    · next hmn =>
      -- the entry that is removed may be the one in front
      split at h
      · exact h
      · rw [get?_cons, if_neg hmn] at h
        exact ih h

/-- **Removing an entry** keeps a directory well formed. -/
theorem WellFormed.erase (hd : d.WellFormed) (name : String) : (d.erase name).WellFormed := by
  induction d using inductionOnCons with
  | empty => exact hd
  | cons n e rest ih =>
    obtain ⟨hfirst, hn, he, hrest⟩ := wellFormed_cons.mp hd
    rw [erase_cons]
    -- without its first entry the rest still increases
    split
    · exact hrest
    · exact wellFormed_cons.mpr
        ⟨fun m hm => hfirst m (isSome_get?_of_erase hm), hn, he, ih hrest⟩

/-- What is found in a well-formed directory is well formed, and so is its name. -/
theorem WellFormed.entry_of_get? (hd : d.WellFormed) (h : d.get? name = some entry) :
    Path.IsName name ∧ entry.WellFormed := by
  refine get?_induction (P := WellFormed) (Q := fun n e => Path.IsName n ∧ e.WellFormed)
    (fun n e rest hwell => ?_) hd h
  obtain ⟨-, hn, he, hrest⟩ := wellFormed_cons.mp hwell
  exact ⟨⟨hn, he⟩, hrest⟩

/-- A folder further down in a well-formed directory is well formed. -/
theorem WellFormed.of_find? (hd : d.WellFormed) (h : d.find? names = some (.folder entries)) :
    entries.WellFormed :=
  find?_induction
    (fun _ _ _ hsub hget => Entry.wellFormed_folder.mp (hsub.entry_of_get? hget).2) hd h

/-- **Changing a directory below** keeps a directory well formed, if the change does. -/
theorem WellFormed.modify {change : Directory → Directory} (hd : d.WellFormed)
    (hchange : ∀ sub : Directory, sub.WellFormed → (change sub).WellFormed) (names : List String) :
    (modify change names d).WellFormed := by
  -- down the way of the change: on the way back each folder is put in its place again, under its
  -- name
  induction names generalizing d with
  | nil => exact hchange d hd
  | cons name names ih =>
    rw [Directory.modify]
    split
    · next entries hget =>
      obtain ⟨hname, hentries⟩ := hd.entry_of_get? hget
      have hchanged := ih (Entry.wellFormed_folder.mp hentries)
      exact hd.put hname (Entry.wellFormed_folder.mpr hchanged)
    · exact hd

end Directory

/-! ### Changes -/

namespace Files

variable {files changed : Files} {p : Path}

/-- The name that a path ends in, if any, is the name of an entry. -/
theorem isName_of_splitName? {above : Path} {name : String}
    (h : splitName? p = some (above, name)) : Path.IsName name := by
  unfold splitName? at h
  split at h
  · cases h
  · next last _ =>
    split at h
    · cases h
    · -- a part that leads nowhere or up is no name, and there are no other parts
      next hlast =>
      cases h
      simp only [Bool.or_eq_true, decide_eq_true_eq, not_or, Bool.not_eq_true] at hlast
      simp [Path.IsName, Path.step?, hlast]

/-- A slot has the name of an entry. -/
theorem isName_of_slot? {slot : Slot} (h : files.slot? p = .ok (some slot)) :
    Path.IsName slot.name := by
  unfold slot? at h
  split at h
  · cases h
  · next hsplit =>
    obtain ⟨⟨place, entries⟩, -, h⟩ := exists_of_bind_eq_ok h
    obtain ⟨found, -, h⟩ := exists_of_bind_eq_ok h
    cases h
    exact isName_of_splitName? hsplit

section WellFormed

variable (h : files.root.WellFormed)
include h

/-- **Filling a slot** keeps the tree well formed. -/
theorem wellFormed_fill {slot : Slot} (hslot : files.slot? p = .ok (some slot)) {entry : Entry}
    (hentry : entry.WellFormed) : (files.fill slot entry).root.WellFormed :=
  h.modify (fun _ hsub => hsub.put (isName_of_slot? hslot) hentry) _

/-- **Writing a file** keeps the tree well formed. -/
theorem wellFormed_writeFile {text? : Option String}
    (hwrite : files.writeFile p text? = .ok changed) : changed.root.WellFormed := by
  obtain ⟨slot, hslot, rfl⟩ := exists_of_writeFile hwrite
  exact wellFormed_fill h hslot (Entry.wellFormed_file text?)

/-- **Making directories** keeps the tree well formed, also if it fails half way. -/
theorem wellFormed_makeDirectories (p : Path) : (files.makeDirectories p).1.root.WellFormed := by
  have hempty : (Entry.folder .empty).WellFormed :=
    Entry.wellFormed_folder.mpr Directory.wellFormed_empty
  exact makeDirectories_induction (P := fun made => made.root.WellFormed)
    (fun made p slot hslot hmade => wellFormed_fill hmade hslot hempty) h p

/-- **Removing** keeps the tree well formed, also if it fails half way. -/
theorem wellFormed_remove (p : Path) : (files.remove p).1.root.WellFormed := by
  refine remove_induction (P := fun left => left.root.WellFormed) (fun left place hleft => ?_)
    (fun left place name hleft => hleft.modify (fun _ hsub => hsub.erase name) _) h p
  rw [clear]
  split
  · exact hleft
  · exact hleft.modify (fun _ _ => Directory.wellFormed_empty) _

theorem wellFormed_enter (henter : files.enter p = .ok changed) : changed.root.WellFormed :=
  root_enter henter ▸ h

end WellFormed

/-- An empty directory below names of entries is well formed. -/
theorem wellFormed_emptyAt {names : List String} (h : ∀ n ∈ names, Path.IsName n) :
    (emptyAt names).root.WellFormed := by
  induction names with
  | nil => exact Directory.wellFormed_empty
  | cons name names ih =>
    obtain ⟨hname, hnames⟩ := List.forall_mem_cons.mp h
    have hbelow := Entry.wellFormed_folder.mpr (ih hnames)
    refine Directory.wellFormed_cons.mpr
      ⟨fun n hn => ?_, hname, hbelow, Directory.wellFormed_empty⟩
    -- there is no other entry
    cases hn

end Files

end MatchCheck
