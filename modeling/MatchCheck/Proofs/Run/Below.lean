import Mathlib.Data.List.Lex
import MatchCheck.Proofs.Files.Descent

/-!
# The files below a directory

A path to a directory stands for the files below it. These are the files that names lead down to
without a hidden directory on the way (`Directory.Ordered.mem_visibleFiles_iff`), and they come in
the order of their paths (`Run.filesBelow_exact`).

Paths are compared step by step (`Path.Before`). In each directory, entries are in the order of
their names, and all that is below an entry takes its place. Whether two files are in order is
decided in the last directory above both, so that order in each directory is order as a whole. It
is not the order of spellings: `a/c` comes before `a.b`, although a slash is greater than a dot.
-/

namespace MatchCheck

/-! ### Visible files -/

/-- The names that lead down to the visible files of an entry that has a name. -/
def Entry.visibleFiles (name : String) : Entry → List (List String)
  | file _ => [[name]]
  | folder entries => if Directory.isHidden name then [] else entries.visibleFiles.map (name :: ·)

namespace Directory

variable {d : Directory} {name : String} {names : List String}

/-- Names lead down to a file, and no directory on the way is hidden. -/
def HasVisible (d : Directory) (names : List String) : Prop :=
  (∃ text?, d.find? names = some (.file text?)) ∧ ∀ name ∈ names.dropLast, isHidden name = false

theorem visibleFiles_cons (n : String) (e : Entry) (rest : Directory) :
    (cons n e rest).visibleFiles = e.visibleFiles n ++ rest.visibleFiles := by
  cases e <;> rfl

theorem not_hasVisible_nil (d : Directory) : ¬ d.HasVisible [] := by
  rintro ⟨⟨text?, h⟩, -⟩
  cases h

/-- Below a directory, one name more has to be visible. -/
theorem hasVisible_folder {entries : Directory} (h : d.get? name = some (.folder entries)) :
    d.HasVisible (name :: names) ↔ isHidden name = false ∧ entries.HasVisible names := by
  have hfind : d.find? (name :: names) = entries.find? names := by
    rw [find?_cons, h]
    rfl
  unfold HasVisible
  rw [hfind]
  -- the last name is that of the file, which may be hidden
  cases names with
  | nil => exact iff_of_false (not_hasVisible_nil entries) fun h => not_hasVisible_nil entries h.2
  | cons next names =>
    rw [List.dropLast_cons_cons, List.forall_mem_cons]
    exact and_left_comm

/-- Below a file there is nothing. -/
theorem hasVisible_file {text? : Option String} (h : d.get? name = some (.file text?)) :
    d.HasVisible (name :: names) ↔ names = [] := by
  have hfind : d.find? (name :: names) = if names.isEmpty then some (.file text?) else none := by
    rw [find?_cons, h]
    rfl
  unfold HasVisible
  rw [hfind]
  cases names with
  | nil => exact iff_of_true ⟨⟨text?, rfl⟩, List.forall_mem_nil _⟩ rfl
  | cons next names => simp

/-- A directory is built by putting entries in front, and what holds below a folder is known when it
is put there. -/
@[elab_as_elim]
theorem inductionOnEntries {P : Directory → Prop} (empty : P empty)
    (cons : ∀ name entry rest, (∀ entries, entry = .folder entries → P entries) → P rest →
      P (cons name entry rest)) (d : Directory) : P d := by
  induction d with
  | empty => exact empty
  | file name text? rest ih =>
    refine cons name (.file text?) rest (fun entries h => ?_) ih
    -- a file is no folder
    cases h
  | folder name entries rest ihentries ihrest =>
    refine cons name (.folder entries) rest (fun below h => ?_) ihrest
    cases h
    exact ihentries

section Entry

variable {entry : Entry}

/-- The visible files of an entry are below its name. -/
theorem exists_of_mem_entry (h : names ∈ entry.visibleFiles name) :
    ∃ below, names = name :: below := by
  cases entry with
  | file text? => exact ⟨[], List.mem_singleton.mp h⟩
  | folder entries =>
    -- in a hidden folder nothing is visible
    cases hhidden : isHidden name with
    | true => simp [Entry.visibleFiles, hhidden] at h
    | false =>
      obtain ⟨below, -, rfl⟩ : ∃ below ∈ entries.visibleFiles, name :: below = names := by
        simpa [Entry.visibleFiles, hhidden] using h
      exact ⟨below, rfl⟩

/-- An entry lists what is visible behind its name. -/
theorem mem_entry_iff (h : d.get? name = some entry)
    (hentries : ∀ entries, entry = .folder entries →
      (names ∈ entries.visibleFiles ↔ entries.HasVisible names)) :
    name :: names ∈ entry.visibleFiles name ↔ d.HasVisible (name :: names) := by
  cases entry with
  | file text? =>
    rw [hasVisible_file h]
    simp [Entry.visibleFiles]
  | folder entries =>
    rw [hasVisible_folder h, ← hentries entries rfl]
    cases hhidden : isHidden name with
    | true => simp [Entry.visibleFiles, hhidden]
    | false => simp [Entry.visibleFiles, hhidden]

/-- And it lists this in order. -/
theorem pairwise_entry
    (hentries : ∀ entries, entry = .folder entries →
      entries.visibleFiles.Pairwise (List.Lex (· < ·))) (name : String) :
    (entry.visibleFiles name).Pairwise (List.Lex (· < ·)) := by
  cases entry with
  | file text? => exact List.pairwise_singleton _ _
  | folder entries =>
    unfold Entry.visibleFiles
    dsimp only
    split
    · exact .nil
    · -- behind the same name the order is the one below
      refine List.pairwise_map.mpr ((hentries entries rfl).imp ?_)
      intro names more hlex
      exact .cons hlex

end Entry

/-- **Exactly the visible files.** In a directory whose names are in order, these are the files that
names lead down to without a hidden directory on the way. -/
theorem Ordered.mem_visibleFiles_iff (hd : d.Ordered) :
    names ∈ d.visibleFiles ↔ d.HasVisible names := by
  -- entry by entry and down into folders; order tells the first name apart from all further back
  induction d using inductionOnEntries generalizing names with
  | empty =>
    refine iff_of_false (List.not_mem_nil) ?_
    rintro ⟨⟨text?, h⟩, -⟩
    cases names <;> cases h
  | cons n e rest ihentries ihrest =>
    obtain ⟨hfirst, he, hrest⟩ := ordered_cons.mp hd
    rw [visibleFiles_cons, List.mem_append]
    cases names with
    | nil =>
      refine iff_of_false ?_ (not_hasVisible_nil _)
      rintro (h | h)
      · obtain ⟨below, h⟩ := exists_of_mem_entry h
        cases h
      · obtain ⟨name, below, h, -⟩ := exists_of_mem_visibleFiles h
        cases h
    | cons name names =>
      by_cases hn : n = name
      · -- no entry further back has the first name
        subst hn
        have hback : n :: names ∉ rest.visibleFiles := by
          intro h
          obtain ⟨name, below, heq, hsome⟩ := exists_of_mem_visibleFiles h
          obtain ⟨rfl, -⟩ := List.cons.inj heq
          exact String.lt_irrefl _ (hfirst _ hsome)
        rw [or_iff_left hback]
        refine mem_entry_iff (get?_cons_self n e rest) fun entries hentries => ?_
        subst hentries
        exact ihentries entries rfl he
      · have hfront : name :: names ∉ e.visibleFiles n := by
          intro h
          obtain ⟨below, heq⟩ := exists_of_mem_entry h
          exact hn (List.cons.inj heq).1.symm
        have hfind : (cons n e rest).find? (name :: names) = rest.find? (name :: names) := by
          rw [find?_cons, find?_cons, get?_cons_of_ne e rest hn]
        rw [or_iff_right hfront, ihrest hrest]
        unfold HasVisible
        rw [hfind]

/-- **In order.** The visible files come in the order of the names that lead down to them. -/
theorem Ordered.pairwise_visibleFiles (hd : d.Ordered) :
    d.visibleFiles.Pairwise (List.Lex (· < ·)) := by
  -- inside an entry by what holds below it, across entries by the order of names
  induction d using inductionOnEntries with
  | empty => exact .nil
  | cons n e rest ihentries ihrest =>
    obtain ⟨hfirst, he, hrest⟩ := ordered_cons.mp hd
    rw [visibleFiles_cons, List.pairwise_append]
    refine ⟨pairwise_entry (fun entries hentries => ?_) n, ihrest hrest, ?_⟩
    · subst hentries
      exact ihentries entries rfl he
    · -- what is further back begins with a greater name
      intro names hnames more hmore
      obtain ⟨below, rfl⟩ := exists_of_mem_entry hnames
      obtain ⟨name, below', rfl, hsome⟩ := exists_of_mem_visibleFiles hmore
      exact .rel (hfirst name hsome)

/-- Names that lead somewhere in a tidy directory are names of entries. -/
theorem Tidy.isName_of_find? {entry : Entry} (hd : d.Tidy) (h : d.find? names = some entry) :
    ∀ name ∈ names, Path.IsName name := by
  induction names generalizing d with
  | nil => exact List.forall_mem_nil _
  | cons name names ih =>
    rw [find?_cons] at h
    obtain ⟨found, hfound, h⟩ := Option.bind_eq_some_iff.mp h
    refine List.forall_mem_cons.mpr ⟨(hd.entry_of_get? hfound).1, ?_⟩
    cases found with
    | folder entries => exact ih (hd.of_get? hfound) h
    -- a file ends the way
    | file text? =>
      obtain ⟨hempty, -⟩ := Option.ite_none_right_eq_some.mp h
      rw [List.isEmpty_iff.mp hempty]
      exact List.forall_mem_nil _

end Directory

/-! ### The order of paths -/

namespace Path

/-- The kinds of steps in the order in which they are compared. -/
def Component.rank : Component → Nat
  | root => 0
  | here => 1
  | up => 2
  | name _ => 3

/-- The order of steps. Two names are compared as such. -/
def Component.Before : Component → Component → Prop
  | name m, name n => m < n
  | s, t => s.rank < t.rank

/-- The order of paths: the first step in which they differ decides. -/
def Before (p q : Path) : Prop :=
  List.Lex Component.Before p.components q.components

theorem Component.not_before_self (s : Component) : ¬ s.Before s := by
  cases s with
  | name n => exact String.lt_irrefl n
  | root | here | up => exact Nat.lt_irrefl _

/-- A path that comes before another one takes other steps. -/
theorem Before.not_same {p q : Path} (h : p.Before q) : ¬ p.same q := by
  intro hsame
  unfold Before at h
  rw [same_iff.mp hsame] at h
  exact List.lex_irrefl Component.not_before_self _ h

theorem lex_map_name {names more : List String} (h : List.Lex (· < ·) names more) :
    List.Lex Component.Before (names.map .name) (more.map .name) := by
  induction h with
  | nil => exact .nil
  | rel h => exact .rel h
  | cons _ ih => exact .cons ih

/-- Below one path, names decide about the order. -/
theorem before_foldl_child (p : Path) {names more : List String}
    (hnames : ∀ n ∈ names, IsName n) (hmore : ∀ n ∈ more, IsName n)
    (h : List.Lex (· < ·) names more) : (names.foldl child p).Before (more.foldl child p) := by
  unfold Before
  rw [components_foldl_child p hnames, components_foldl_child p hmore]
  exact List.Lex.append_left _ (lex_map_name h) p.components

end Path

/-! ### All files below a directory, in order -/

/-- The order of a list does not matter for what is visible. -/
theorem Directory.hasVisible_arranged {d : Directory} {names : List String} :
    d.arranged.HasVisible names ↔ d.HasVisible names := by
  refine and_congr_left fun _ => exists_congr fun text? => ?_
  -- a folder may be in another order afterwards, but a file is the same
  rw [find?_arranged, Option.map_eq_some_iff]
  constructor
  · rintro ⟨found, hfound, h⟩
    cases found with
    | file text? =>
      cases h
      exact hfound
    | folder entries => cases h
  · intro h
    exact ⟨_, h, rfl⟩

namespace Run

variable {files : Files} {p : Path} {entries : Directory}

theorem dropRepeats_eq_self {ps : List Path} (h : Distinct ps) : dropRepeats ps = ps := by
  induction ps with
  | nil => rfl
  | cons p ps ih =>
    cases ps with
    | nil => rfl
    | cons q ps =>
      obtain ⟨hp, hps⟩ := List.pairwise_cons.mp h
      rw [dropRepeats_cons_of_not_same (hp q List.mem_cons_self), ih hps]

theorem named_of_entry (hp : files.entry p = .ok (.folder entries)) (config : Config) :
    named files config p = (filesBelow files p).filter config.isSource := by
  have hfile : files.isFile p = false := by
    unfold Files.isFile
    rw [hp]
  rw [named, hfile]
  rfl

section WellFormed

variable {above : List String} (hroot : files.root.WellFormed)
  (hp : files.locate p = .ok (.ofNames above))
  (hentries : files.root.find? above = some (.folder entries))
include hroot hp hentries

/-- The files below a directory are the visible ones whose paths can be looked up. -/
theorem mem_filesBelow_iff {q : Path} :
    q ∈ filesBelow files p ↔
      ∃ names, entries.HasVisible names ∧ Files.Admits p names ∧ q = names.foldl Path.child p := by
  have hwell := hroot.of_find? hentries
  -- of the visible files those are kept whose paths can be looked up
  have hfile : ∀ names, entries.HasVisible names →
      (files.isFile (names.foldl Path.child p) ↔ Files.Admits p names) := by
    intro names hvisible
    obtain ⟨text?, htext⟩ := hvisible.1
    exact Files.isFile_foldl_child hp hentries (hwell.tidy.isName_of_find? htext) htext
  unfold filesBelow
  rw [Files.entry_of_locate hp hentries]
  simp only [List.mem_filter, List.mem_map, hwell.ordered.mem_visibleFiles_iff]
  constructor
  · rintro ⟨⟨names, hvisible, rfl⟩, hisFile⟩
    exact ⟨names, hvisible, (hfile names hvisible).mp hisFile, rfl⟩
  · rintro ⟨names, hvisible, hadmits, rfl⟩
    exact ⟨⟨names, hvisible, rfl⟩, (hfile names hvisible).mpr hadmits⟩

/-- The paths of the files below a directory increase. -/
theorem pairwise_filesBelow : (filesBelow files p).Pairwise Path.Before := by
  have hwell := hroot.of_find? hentries
  unfold filesBelow
  rw [Files.entry_of_locate hp hentries]
  -- files that are left out and a path in front of all of them do not change the order
  refine List.Pairwise.filter _ (List.pairwise_map.mpr ?_)
  refine hwell.ordered.pairwise_visibleFiles.imp_of_mem ?_
  intro names more hmem hmem' hlex
  rw [hwell.ordered.mem_visibleFiles_iff] at hmem hmem'
  obtain ⟨text?, htext⟩ := hmem.1
  obtain ⟨text?', htext'⟩ := hmem'.1
  exact p.before_foldl_child (hwell.tidy.isName_of_find? htext)
    (hwell.tidy.isName_of_find? htext') hlex

/-- What the directory stands for is not shortened any more. -/
theorem sources_directory (config : Config) :
    sources files config [p] = .ok ((filesBelow files p).filter config.isSource) := by
  have hentry := Files.entry_of_locate hp hentries
  have hbefore := pairwise_filesBelow hroot hp hentries
  -- paths that increase are different, so that there is no repeat to drop
  have hdistinct : Distinct ((filesBelow files p).filter config.isSource) :=
    (hbefore.imp Path.Before.not_same).filter _
  have hhas : ∀ q ∈ [p], files.has q := by
    refine List.forall_mem_singleton.mpr ?_
    unfold Files.has
    rw [hentry]
    rfl
  rw [sources_eq hhas config, List.flatMap_singleton, named_of_entry hentry config,
    dropRepeats_eq_self hdistinct]

/-- **The files below a directory of a well-formed tree** are the visible ones whose paths can be
looked up, each once and in the order of their paths. -/
theorem filesBelow_of_wellFormed (config : Config) :
    (∀ q, q ∈ filesBelow files p ↔
        ∃ names, entries.HasVisible names ∧ Files.Admits p names ∧ q = names.foldl Path.child p) ∧
      (filesBelow files p).Nodup ∧ (filesBelow files p).Pairwise Path.Before ∧
      sources files config [p] = .ok ((filesBelow files p).filter config.isSource) := by
  have hbefore := pairwise_filesBelow hroot hp hentries
  refine ⟨fun q => mem_filesBelow_iff hroot hp hentries, ?_, hbefore,
    sources_directory hroot hp hentries config⟩
  refine hbefore.imp ?_
  rintro q r hqr rfl
  exact hqr.not_same (Path.same_iff.mpr rfl)

end WellFormed

/-- **All files below a directory, in order.** Let the entries of a tree be listed in any order, no
name twice in a directory, and let the tree be made of what is listed. The files below a directory
are exactly those that names lead down to without a hidden directory on the way and whose paths can
be looked up. Each is given once, and their paths increase. The sources that the directory stands
for are those of them that have an extension of sources, in the same order.

A tree that commands have left behind is made of its own entries (`CommandLine.wellFormed_run`,
`Directory.Ordered.arranged_eq`). -/
theorem filesBelow_exact {listed below : Directory} (hlisted : listed.Tidy)
    (hroot : files.root = listed.arranged) {above : List String}
    (hp : files.locate p = .ok (.ofNames above))
    (hbelow : listed.find? above = some (.folder below)) (config : Config) :
    (∀ q, q ∈ filesBelow files p ↔
        ∃ names, below.HasVisible names ∧ Files.Admits p names ∧ q = names.foldl Path.child p) ∧
      (filesBelow files p).Nodup ∧ (filesBelow files p).Pairwise Path.Before ∧
      sources files config [p] = .ok ((filesBelow files p).filter config.isSource) := by
  -- put in order, what is listed is a well-formed tree with the same files
  have hwell : files.root.WellFormed := hroot ▸ hlisted.wellFormed_arranged
  have hentries : files.root.find? above = some (.folder below.arranged) := by
    rw [hroot, Directory.find?_arranged, hbelow]
    rfl
  have hexact := filesBelow_of_wellFormed hwell hp hentries config
  simpa only [Directory.hasVisible_arranged] using hexact

/-- A directory whose entries are listed in no order: files, a directory with files in it, a hidden
directory and a hidden file. -/
def jumble : Directory :=
  let entries : Directory :=
    .file "b.pmxc" (some "") <| .folder ".git" (.file "x.pmxc" none .empty) <|
      .folder "a" (.file "z" none <| .file "c.pmxc" (some "") .empty) <|
      .file "a.b" none <| .file ".h.pmxc" (some "") .empty
  .folder "src" entries .empty

/-- The files that are listed there. -/
def jumbled : Files :=
  ⟨jumble.arranged, .ofNames []⟩

/-- What is below `a` comes before `a.b`, and nothing in a hidden directory is listed. -/
theorem jumbled_files_below :
    jumble.Tidy ∧ jumbled.locate ⟨"src", [""]⟩ = .ok (.ofNames ["src"]) ∧
      ⟨"src", ["a", "c.pmxc"]⟩ ∈ filesBelow jumbled ⟨"src", [""]⟩ ∧
      ⟨"src", [".git", "x.pmxc"]⟩ ∉ filesBelow jumbled ⟨"src", [""]⟩ ∧
      (filesBelow jumbled ⟨"src", [""]⟩).Pairwise Path.Before ∧
      sources jumbled .default [⟨"src", [""]⟩] =
        .ok [⟨"src", [".h.pmxc"]⟩, ⟨"src", ["a", "c.pmxc"]⟩, ⟨"src", ["b.pmxc"]⟩] := by
  have htidy : jumble.Tidy := by decide +kernel
  have hp : jumbled.locate ⟨"src", [""]⟩ = .ok (.ofNames ["src"]) := rfl
  obtain ⟨hmem, -, hbefore, hsources⟩ := filesBelow_exact htidy rfl hp rfl .default
  refine ⟨htidy, hp, (hmem _).mpr ⟨["a", "c.pmxc"], ?_, ?_, rfl⟩, ?_, hbefore, hsources.trans ?_⟩
  · exact ⟨⟨some "", rfl⟩, by decide +kernel⟩
  · exact ⟨rfl, by decide +kernel⟩
  · decide +kernel
  · exact congrArg Except.ok (by decide +kernel)

end Run

end MatchCheck
