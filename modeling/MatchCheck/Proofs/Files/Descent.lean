import MatchCheck.Proofs.Files.Ordered
import MatchCheck.Proofs.Run.Repeats

/-!
# Paths that go on below a directory

A path to a directory goes on with names. The longer path is spelled with one slash in front of each
name, whether or not the path to the directory ends in a slash (`Path.parts_foldl_child`), and it is
followed from the place of the directory (`Files.locate_foldl_child`). There it arrives where the
names lead in the tree (`Files.walk_names`). So a file in the tree is reached by its path, unless
the path or a name in it is too long (`Files.isFile_foldl_child`).
-/

namespace MatchCheck

namespace Path

/-- The parts of a path, without an empty one at its end. -/
def stem (p : Path) : List String :=
  if p.parts.getLast? = some "" then p.parts.dropLast else p.parts

/-- But for an empty part at its end, a path is its stem. -/
theorem parts_eq_stem_or (p : Path) : p.parts = p.stem ∨ p.parts = p.stem ++ [""] := by
  unfold stem
  split
  · next h => exact .inr (List.dropLast_append_getLast? "" h).symm
  · exact .inl rfl

theorem stem_eq_parts {p : Path} (h : p.parts.getLast? ≠ some "") : p.stem = p.parts :=
  if_neg h

theorem getLast?_parts_child (p : Path) (name : String) :
    (p.child name).parts.getLast? = some name := by
  rw [parts_child, List.getLast?_concat]

/-- The stem of a child is one name longer. -/
theorem stem_child (p : Path) {name : String} (h : name ≠ "") :
    (p.child name).stem = p.stem ++ [name] := by
  rw [stem_eq_parts, parts_child]
  · rfl
  · rw [getLast?_parts_child]
    exact fun heq => h (Option.some.inj heq)

/-- Along names, a stem grows by them. -/
theorem stem_foldl_child (p : Path) {names : List String} (h : ∀ n ∈ names, n ≠ "") :
    (names.foldl child p).stem = p.stem ++ names := by
  induction names generalizing p with
  | nil => exact (List.append_nil _).symm
  | cons name names ih =>
    obtain ⟨hname, hnames⟩ := List.forall_mem_cons.mp h
    rw [List.foldl_cons, ih _ hnames, stem_child p hname, List.append_assoc]
    rfl

/-- The path along names ends in the last of them. -/
theorem parts_foldl_child (p : Path) {names : List String} (h : ∀ n ∈ names, n ≠ "")
    (hne : names ≠ []) : (names.foldl child p).parts = p.stem ++ names := by
  rw [← stem_foldl_child p h, stem_eq_parts]
  obtain ⟨front, last, rfl⟩ := (List.eq_nil_or_concat' names).resolve_left hne
  rw [List.foldl_append, List.foldl_cons, List.foldl_nil, getLast?_parts_child]
  intro heq
  exact h last (by simp) (Option.some.inj heq)

/-- A path starts at the root if there is nothing in front of its first slash. -/
theorem isAbsolute_iff_head?_stem (p : Path) : p.isAbsolute ↔ p.stem.head? = some "" := by
  obtain ⟨head, tail⟩ := p
  unfold stem isAbsolute parts
  cases tail with
  | nil => by_cases hhead : head = "" <;> simp [hhead]
  | cons part tail =>
    -- an empty last part may be dropped, but the first one stays
    have hhead : (if (head :: part :: tail).getLast? = some "" then (head :: part :: tail).dropLast
        else head :: part :: tail).head? = some head := by
      split <;> rfl
    rw [hhead]
    simp

/-- Below a path that starts at the root, so do all paths. -/
theorem isAbsolute_foldl_child (p : Path) {names : List String} (h : ∀ n ∈ names, n ≠ "") :
    (names.foldl child p).isAbsolute = p.isAbsolute := by
  rw [Bool.eq_iff_iff, isAbsolute_iff_head?_stem, isAbsolute_iff_head?_stem, stem_foldl_child p h]
  -- with an empty stem the path goes on from the working directory, and a name is not empty
  cases hstem : p.stem with
  | cons part parts => rfl
  | nil =>
    cases names with
    | nil => rfl
    | cons name names =>
      refine iff_of_false (fun heq => ?_) (by simp)
      exact h name List.mem_cons_self (Option.some.inj heq)

end Path

namespace Files

variable {files : Files} {p : Path} {entries : Directory} {names : List String}

/-- A path along names below another one can be looked up: neither it nor a name is too long, and
it is spelled as paths are. -/
def Admits (p : Path) (names : List String) : Prop :=
  checkSpelling (names.foldl Path.child p) = .ok () ∧ ∀ name ∈ names, name.utf8ByteSize ≤ nameLimit

/-- The way of a path begins with nothing in front of its first slash, which leads nowhere. -/
theorem walk_start (files : Files) (p : Path) :
    files.walk (files.start p).1 (files.start p).2 = files.walk (files.start p).1 p.parts := by
  unfold start
  split
  · next habsolute =>
    -- a path from the root has an empty part in front, and an empty part leads nowhere
    have hhead : p.head = "" := by
      unfold Path.isAbsolute at habsolute
      simpa using (Bool.and_eq_true_iff.mp habsolute).1
    have hroot : files.entryAt? (.ofNames []) = some (.folder files.root) := rfl
    show files.walk (.ofNames []) p.tail = files.walk (.ofNames []) (p.head :: p.tail)
    rw [hhead, walk, hroot]
    rfl
  · rfl

/-- An empty part at the end of a path leads nowhere. -/
theorem walk_stem {place target : Place} (h : files.walk place p.parts = .ok target) :
    files.walk place p.stem = .ok target := by
  rcases p.parts_eq_stem_or with heq | heq
  · rwa [heq] at h
  · rw [heq, walk_append] at h
    obtain ⟨before, hbefore, hlast⟩ := exists_of_bind_eq_ok h
    rw [walk] at hlast
    -- an empty part at the end asks for a directory, and stays there
    split at hlast
    · cases hlast
    · cases hlast
    · cases hlast
      exact hbefore

section Down

variable {above : List String} (habove : files.root.find? above = some (.folder entries))
include habove

/-- A step down goes to an entry of the directory whose name is not too long. -/
theorem walk_cons_name {name : String} (hname : Path.IsName name) {target : Place} :
    files.walk (.ofNames above) (name :: names) = .ok target ↔
      name.utf8ByteSize ≤ nameLimit ∧ (entries.get? name).isSome ∧
        files.walk (.ofNames (above ++ [name])) names = .ok target := by
  have hat : files.entryAt? (.ofNames above) = some (.folder entries) := habove
  have hfiller : Path.isFiller name = false := by
    simp [Path.isFiller, hname.ne_empty, hname.ne_dot]
  have hup : name ≠ ".." := by
    rintro rfl
    cases hname
  -- the name is looked up as it stands, if its length allows it at all
  have hlookup : lookup (.ofNames above) entries name =
      if nameLimit < name.utf8ByteSize then .error .nameTooLong else .ok (entries.get? name) := rfl
  rw [walk, hat]
  simp only [hfiller, hup, Bool.false_eq_true, if_false, hlookup]
  by_cases hlong : nameLimit < name.utf8ByteSize
  · rw [if_pos hlong]
    exact iff_of_false (by simp) fun h => Nat.not_le.mpr hlong h.1
  · rw [if_neg hlong]
    cases entries.get? name with
    | none => simp
    | some entry =>
      simp only [Nat.not_lt.mp hlong, Option.isSome_some, true_and]
      rfl

/-- **A walk down along names arrives where they lead in the tree**, if no name is too long. -/
theorem walk_names (hnames : ∀ n ∈ names, Path.IsName n) {target : Place} :
    files.walk (.ofNames above) names = .ok target ↔
      target = .ofNames (above ++ names) ∧ (∀ n ∈ names, n.utf8ByteSize ≤ nameLimit) ∧
        (entries.find? names).isSome := by
  -- name by name; each leads to another directory, from which the rest is followed
  induction names generalizing above entries with
  | nil =>
    rw [walk, List.append_nil, Except.ok.injEq, eq_comm]
    simp [Directory.find?]
  | cons name names ih =>
    obtain ⟨hname, hnames⟩ := List.forall_mem_cons.mp hnames
    rw [walk_cons_name habove hname, Directory.find?_cons, List.forall_mem_cons]
    cases hget : entries.get? name with
    | none => simp
    | some entry =>
      have hentry : files.root.find? (above ++ [name]) = some entry := by
        rw [Directory.find?_append, habove]
        show entries.find? [name] = some entry
        rw [Directory.find?_cons, hget]
        cases entry <;> rfl
      cases entry with
      | folder below =>
        rw [ih hentry hnames, List.append_assoc]
        constructor
        · rintro ⟨hlength, -, htarget, hlengths, hfound⟩
          exact ⟨htarget, ⟨hlength, hlengths⟩, hfound⟩
        · rintro ⟨htarget, ⟨hlength, hlengths⟩, hfound⟩
          exact ⟨hlength, rfl, htarget, hlengths, hfound⟩
      | file text? =>
        cases names with
        | nil =>
          have hwalk : files.walk (.ofNames (above ++ [name])) [] = .ok target ↔
              target = .ofNames (above ++ [name]) := by
            rw [walk, Except.ok.injEq]
            exact eq_comm
          rw [hwalk]
          simp [Entry.find?, and_comm]
        | cons next names =>
          -- no step leads down from a file
          have hat : files.entryAt? (.ofNames (above ++ [name])) = some (.file text?) := hentry
          rw [walk, hat]
          simp [Entry.find?]

end Down

/-- A path names what is at the place where it leads. -/
theorem entry_eq_ok_iff {found : Entry} :
    files.entry p = .ok found ↔
      ∃ place, files.locate p = .ok place ∧ files.entryAt? place = some found := by
  constructor
  · intro h
    obtain ⟨place, hplace, h⟩ := exists_of_bind_eq_ok h
    refine ⟨place, hplace, ?_⟩
    -- there may be nothing at the place
    split at h
    · next hat =>
      cases h
      exact hat
    · cases h
  · rintro ⟨place, hplace, hat⟩
    rw [entry, hplace]
    simp only [bind, Except.bind, hat]

/-- What stands in the tree is named by the path to its place. -/
theorem entry_of_locate {above : List String} {found : Entry}
    (hp : files.locate p = .ok (.ofNames above)) (habove : files.root.find? above = some found) :
    files.entry p = .ok found :=
  entry_eq_ok_iff.mpr ⟨.ofNames above, hp, habove⟩

/-- A path along names below a directory is followed from there. -/
theorem locate_foldl_child {place : Place} (hp : files.locate p = .ok place)
    (hnames : ∀ n ∈ names, Path.IsName n) (hne : names ≠ []) :
    files.locate (names.foldl Path.child p) =
      checkSpelling (names.foldl Path.child p) >>= fun _ => files.walk place names := by
  have hempty : ∀ n ∈ names, n ≠ "" := fun n hn => (hnames n hn).ne_empty
  have hstart : (files.start (names.foldl Path.child p)).1 = (files.start p).1 := by
    unfold start
    rw [Path.isAbsolute_foldl_child p hempty]
    split <;> rfl
  -- the path to the directory may end in `.` or a slash, which leads nowhere else
  have hstem : files.walk (files.start p).1 p.stem = .ok place := by
    obtain ⟨-, -, hwalk⟩ := exists_of_bind_eq_ok hp
    exact walk_stem ((walk_start files p).symm.trans hwalk)
  have hwalk : files.walk (files.start (names.foldl Path.child p)).1
      (files.start (names.foldl Path.child p)).2 = files.walk place names := by
    rw [walk_start, hstart, Path.parts_foldl_child p hempty hne, walk_append, hstem]
    rfl
  rw [← hwalk]
  rfl

/-- A path leads to a file if a file is what it names. -/
theorem isFile_iff : files.isFile p ↔ ∃ text?, files.entry p = .ok (.file text?) := by
  unfold isFile
  split
  · next text? h => exact iff_of_true rfl ⟨text?, h⟩
  · next h =>
    refine iff_of_false (by simp) ?_
    rintro ⟨text?, hfile⟩
    exact h text? hfile

/-- **A file below a directory is reached by its path**, unless the path cannot be looked up. -/
theorem isFile_foldl_child {above : List String} (hp : files.locate p = .ok (.ofNames above))
    (habove : files.root.find? above = some (.folder entries))
    (hnames : ∀ n ∈ names, Path.IsName n) {text? : Option String}
    (hfile : entries.find? names = some (.file text?)) :
    files.isFile (names.foldl Path.child p) ↔ Admits p names := by
  have hne : names ≠ [] := by
    rintro rfl
    cases hfile
  -- there is such a file, and whether its path leads to it depends on spelling and lengths alone
  have htarget : files.root.find? (above ++ names) = some (.file text?) := by
    rw [Directory.find?_append, habove]
    exact hfile
  rw [isFile_iff]
  constructor
  · rintro ⟨found, hfound⟩
    obtain ⟨target, hwalk, -⟩ := entry_eq_ok_iff.mp hfound
    rw [locate_foldl_child hp hnames hne] at hwalk
    obtain ⟨⟨⟩, hspelling, hwalk⟩ := exists_of_bind_eq_ok hwalk
    exact ⟨hspelling, ((walk_names habove hnames).mp hwalk).2.1⟩
  · rintro ⟨hspelling, hlengths⟩
    have hwalk : files.walk (.ofNames above) names = .ok (.ofNames (above ++ names)) :=
      (walk_names habove hnames).mpr ⟨rfl, hlengths, by rw [hfile]; rfl⟩
    refine ⟨text?, entry_of_locate ?_ htarget⟩
    rw [locate_foldl_child hp hnames hne, hspelling]
    exact hwalk

end Files

end MatchCheck
