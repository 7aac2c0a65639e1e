import MatchCheck.Files.Change

/-!
# The files in a tree

What a change does to files is stated on the list of all files of the tree (`Directory.files`). A
file that can be read is listed, under names that end the way its path does
(`Files.listed_of_read`). Writing lists one file more (`Files.files_writeFile`). Removing and making
directories lists none that was not there before (`Files.files_remove_subset`,
`Files.files_makeDirectories_subset`).
-/

namespace MatchCheck

/-- The files of an entry that has a name. -/
def Entry.files (name : String) : Entry → List (List String × Option String)
  | file text? => [([name], text?)]
  | folder entries => entries.files.map fun (names, text?) => (name :: names, text?)

/-! ### Directories -/

namespace Directory

variable {d : Directory} {name : String} {entry : Entry} {names : List String}
  {text? : Option String}

theorem files_cons (n : String) (e : Entry) (rest : Directory) :
    (cons n e rest).files = e.files n ++ rest.files := by
  cases e <;> rfl

/-- **What is found is one of the entries.** It has whatever each entry has in turn. -/
theorem get?_induction {P : Directory → Prop} {Q : String → Entry → Prop}
    (hcons : ∀ n e rest, P (cons n e rest) → Q n e ∧ P rest) (hd : P d)
    (h : d.get? name = some entry) : Q name entry := by
  induction d using inductionOnCons with
  | empty => cases h
  | cons n e rest ih =>
    obtain ⟨hfirst, hrest⟩ := hcons n e rest hd
    rw [get?_cons] at h
    -- the entry in front, or one of the others
    split at h
    · next hn =>
      cases h
      subst hn
      exact hfirst
    · exact ih hrest h

/-- What an entry lists is listed by its directory. -/
theorem files_subset_of_get? (h : d.get? name = some entry) : entry.files name ⊆ d.files := by
  refine get?_induction (P := (·.files ⊆ d.files)) (Q := fun n e => e.files n ⊆ d.files)
    (fun n e rest hlisted => ?_) (List.Subset.refl _) h
  rw [files_cons] at hlisted
  exact List.append_subset.mp hlisted

/-- Putting an entry in its place lists no more than its own files. -/
theorem files_put_subset (name : String) (entry : Entry) (d : Directory) :
    (d.put name entry).files ⊆ entry.files name ++ d.files := by
  induction d using inductionOnCons with
  | empty =>
    rw [put, files_cons]
    exact List.Subset.refl _
  | cons n e rest ih =>
    -- wherever the entry is put, the other entries list what they listed
    have hrest : entry.files name ++ rest.files ⊆ entry.files name ++ (cons n e rest).files := by
      rw [files_cons]
      exact List.append_subset.mpr ⟨List.subset_append_left _ _,
        List.subset_append_of_subset_right _ (List.subset_append_right _ _)⟩
    rw [put_cons]
    split
    · rwa [files_cons name]
    · split
      · rw [files_cons name]
        exact List.Subset.refl _
      · rw [files_cons n e (rest.put name entry)]
        refine List.append_subset.mpr ⟨?_, List.Subset.trans ih hrest⟩
        rw [files_cons]
        exact List.subset_append_of_subset_right _ (List.subset_append_left _ _)

/-- Removing an entry lists no others. -/
theorem files_erase_subset (name : String) (d : Directory) :
    (d.erase name).files ⊆ d.files := by
  induction d using inductionOnCons with
  | empty => exact List.Subset.refl _
  | cons n e rest ih =>
    rw [erase_cons, files_cons]
    -- the entry in front is left out, or the erased one is further back
    split
    · exact List.subset_append_right _ _
    · rw [files_cons]
      exact List.append_subset.mpr
        ⟨List.subset_append_left _ _, List.subset_append_of_subset_right _ ih⟩

/-- A file that is found is listed. -/
theorem mem_files_of_find? (h : d.find? names = some (.file text?)) :
    (names, text?) ∈ d.files := by
  induction names generalizing d with
  | nil => cases h
  | cons name names ih =>
    rw [find?] at h
    -- the first name leads to a folder, to a file or nowhere
    split at h
    · next entries hget =>
      exact files_subset_of_get? hget (List.mem_map.mpr ⟨(names, text?), ih h, rfl⟩)
    · next text? hget =>
      obtain ⟨hnil, heq⟩ := Option.ite_none_right_eq_some.mp h
      obtain rfl : names = [] := List.isEmpty_iff.mp hnil
      cases heq
      exact files_subset_of_get? hget (List.mem_singleton.mpr rfl)
    · cases h

/-- What a change of one directory adds is added below its names, and nothing else is. -/
theorem mem_files_modify {change : Directory → Directory}
    (added : List (List String × Option String))
    (hchange : ∀ sub, (change sub).files ⊆ added ++ sub.files) {x : List String × Option String}
    (h : x ∈ (modify change names d).files) :
    (∃ y ∈ added, x = (names ++ y.1, y.2)) ∨ x ∈ d.files := by
  -- along the names, each of which puts a changed folder back in its place
  induction names generalizing d x with
  | nil =>
    rw [modify] at h
    exact (List.mem_append.mp (hchange d h)).imp (fun hx => ⟨x, hx, rfl⟩) id
  | cons name names ih =>
    rw [modify] at h
    split at h
    · next entries hget =>
      rcases List.mem_append.mp (files_put_subset _ _ _ h) with hx | hx
      · obtain ⟨z, hz, rfl⟩ := List.mem_map.mp hx
        rcases ih hz with ⟨y, hy, rfl⟩ | hz
        · exact .inl ⟨y, hy, rfl⟩
        · exact .inr (files_subset_of_get? hget (List.mem_map.mpr ⟨z, hz, rfl⟩))
      · exact .inr hx
    · exact .inr h

theorem files_modify_subset {change : Directory → Directory}
    (hchange : ∀ sub, (change sub).files ⊆ sub.files) (names : List String) (d : Directory) :
    (modify change names d).files ⊆ d.files := by
  intro x hx
  rcases mem_files_modify [] hchange hx with ⟨y, hy, -⟩ | hx
  · cases hy
  · exact hx

end Directory

/-! ### Paths -/

namespace Path

/-- The way to a name below a path ends in that name. -/
theorem parts_child (p : Path) (name : String) :
    (p.child name).parts =
      (if p.parts.getLast? = some "" then p.parts.dropLast else p.parts) ++ [name] := by
  have hname : (⟨name, []⟩ : Path).isAbsolute = false := by simp [isAbsolute]
  rw [child, join, if_neg (by simp [hname])]
  split <;> exact parts_ofParts (List.append_ne_nil_of_right_ne_nil _ (List.cons_ne_nil _ _))

end Path

/-! ### Walks and changes -/

/-- What was done step by step was done in each step. -/
theorem exists_of_bind_eq_ok {ε α β : Type} {x : Except ε α} {f : α → Except ε β} {b : β}
    (h : x >>= f = .ok b) : ∃ a, x = .ok a ∧ f a = .ok b := by
  cases x with
  | error e => cases h
  | ok a => exact ⟨a, rfl, h⟩

namespace Files

variable {files changed : Files} {place target : Place} {p : Path}

theorem walk_append (files : Files) (place : Place) (parts more : List String) :
    files.walk place (parts ++ more) = files.walk place parts >>= (files.walk · more) := by
  -- along the first part of the way; a failure in it is the failure of the whole
  fun_induction walk files place parts with
  | case1 => rfl
  | case2 | case3 | case6 | case7 => simp [walk, *]; rfl
  | case4 | case5 | case8 => simp [walk, *]

/-- A walk that ends in a name arrives at a place below that name. -/
theorem walk_concat_name {parts : List String} {name : String}
    (hfiller : Path.isFiller name = false) (hup : name ≠ "..")
    (h : files.walk place (parts ++ [name]) = .ok target) :
    ∃ above, files.walk place parts = .ok above ∧ target = above.down name := by
  rw [walk_append] at h
  obtain ⟨above, habove, h⟩ := exists_of_bind_eq_ok h
  refine ⟨above, habove, ?_⟩
  -- the last step is a step down, unless it fails
  simp only [walk, hfiller, hup, Bool.false_eq_true, if_false] at h
  split at h
  · cases h
  · cases h
  · split at h <;> cases h
    rfl

/-- A file that can be read is listed where the walk along its path arrives. -/
theorem listed_of_read {text : String} (h : files.read p = .ok text) :
    ∃ place, files.walk (files.start p).1 (files.start p).2 = .ok place ∧
      (place.names, some text) ∈ files.root.files := by
  rw [read] at h
  obtain ⟨found, hfound, htext⟩ := exists_of_bind_eq_ok h
  obtain rfl : found = .file (some text) := by
    split at htext <;> cases htext
    rfl
  rw [entry] at hfound
  obtain ⟨place, hplace, hentry⟩ := exists_of_bind_eq_ok hfound
  rw [locate] at hplace
  obtain ⟨-, -, hwalk⟩ := exists_of_bind_eq_ok hplace
  refine ⟨place, hwalk, Directory.mem_files_of_find? ?_⟩
  split at hentry
  · next hat =>
    cases hentry
    rw [entryAt?] at hat
    -- at a removed place there is an empty folder and no file
    split at hat
    · cases hat
    · exact hat
  · cases hentry

theorem mem_files_fill {slot : Slot} {entry : Entry} {x : List String × Option String}
    (h : x ∈ (files.fill slot entry).root.files) :
    (∃ y ∈ entry.files slot.name, x = (slot.directory.names ++ y.1, y.2)) ∨ x ∈ files.root.files :=
  Directory.mem_files_modify _ (fun sub => Directory.files_put_subset slot.name entry sub) h

/-- Writing a file fills the slot of its path. -/
theorem exists_of_writeFile {text? : Option String} (h : files.writeFile p text? = .ok changed) :
    ∃ slot, files.slot? p = .ok (some slot) ∧ changed = files.fill slot (.file text?) := by
  rw [writeFile] at h
  obtain ⟨-, -, h⟩ := exists_of_bind_eq_ok h
  obtain ⟨slot?, hslot, h⟩ := exists_of_bind_eq_ok h
  -- a path without a name at its end has no slot, so nothing is written
  cases slot? with
  | none => cases h
  | some slot =>
    dsimp only at h
    split at h <;> cases h
    exact ⟨slot, hslot, rfl⟩

/-- Making a directory fills a slot with an empty one. -/
theorem exists_of_makeDirectory (h : files.makeDirectory p = .ok changed) :
    ∃ slot, files.slot? p.trimSlashes = .ok (some slot) ∧
      changed = files.fill slot (.folder .empty) := by
  rw [makeDirectory] at h
  obtain ⟨-, -, h⟩ := exists_of_bind_eq_ok h
  obtain ⟨slot?, hslot, h⟩ := exists_of_bind_eq_ok h
  cases slot? with
  | none =>
    obtain ⟨-, -, h⟩ := exists_of_bind_eq_ok h
    cases h
  | some slot =>
    dsimp only at h
    split at h <;> cases h
    exact ⟨slot, hslot, rfl⟩

section Making

variable {P : Files → Prop} (hmake : ∀ files p slot, files.slot? p = .ok (some slot) →
  P files → P (files.fill slot (.folder .empty)))
include hmake

theorem ensureDirectory_induction (hfiles : P files) (h : files.ensureDirectory p = .ok changed) :
    P changed := by
  rw [ensureDirectory] at h
  split at h
  · next hmade =>
    cases h
    obtain ⟨slot, hslot, rfl⟩ := exists_of_makeDirectory hmade
    exact hmake files _ slot hslot hfiles
  · -- a directory that is there already is not made
    split at h <;> cases h
    exact hfiles

theorem makeDirectoriesAlong_induction (hfiles : P files) (ps : List Path) :
    P (files.makeDirectoriesAlong ps).1 := by
  induction ps generalizing files with
  | nil => exact hfiles
  | cons p above ih =>
    rw [makeDirectoriesAlong]
    split
    · exact hfiles
    · split
      · next hmade => exact ensureDirectory_induction hmake hfiles hmade
      · -- the directories above are made first, then this one in them
        have habove := ih hfiles
        split
        · next hmade => rwa [hmade] at habove
        · next hmade =>
          rw [hmade] at habove
          split
          · next hensured => exact ensureDirectory_induction hmake habove hensured
          · exact habove
      · exact hfiles

/-- **What is kept when a directory is made** is kept when directories are made along a path. -/
theorem makeDirectories_induction (hfiles : P files) (p : Path) :
    P (files.makeDirectories p).1 :=
  makeDirectoriesAlong_induction hmake hfiles p.ancestors

end Making

/-- **What is kept when a directory is emptied and when a name is erased** is kept when a path is
removed. -/
theorem remove_induction {P : Files → Prop}
    (hclear : ∀ files place, P files → P (files.clear place))
    (herase : ∀ files place name, P files → P (files.eraseAt place name)) (hfiles : P files)
    (p : Path) : P (files.remove p).1 := by
  rw [remove]
  split
  · exact hfiles
  · -- what a path leads to is a folder, a file or nothing
    split
    · -- a directory is emptied before its name is erased
      have hcleared := fun place => hclear files place hfiles
      dsimp only
      split
      · exact herase _ _ _ (hcleared _)
      · exact hcleared _
      · exact hcleared _
    · dsimp only
      split
      · exact herase files _ _ hfiles
      · exact hfiles
      · exact hfiles
    · exact hfiles

/-- Writing a file lists it in the slot of its path. -/
theorem files_writeFile {text? : Option String} (h : files.writeFile p text? = .ok changed) :
    ∃ slot, files.slot? p = .ok (some slot) ∧ changed.root.files ⊆
      (slot.directory.names ++ [slot.name], text?) :: files.root.files := by
  obtain ⟨slot, hslot, rfl⟩ := exists_of_writeFile h
  refine ⟨slot, hslot, fun x hx => ?_⟩
  rcases mem_files_fill hx with ⟨y, hy, rfl⟩ | hx
  · obtain rfl := List.mem_singleton.mp hy
    exact List.mem_cons_self
  · exact List.mem_cons_of_mem _ hx

/-- A directory that is made has no files in it. -/
theorem files_makeDirectories_subset (files : Files) (p : Path) :
    (files.makeDirectories p).1.root.files ⊆ files.root.files := by
  refine makeDirectories_induction (P := fun changed => changed.root.files ⊆ files.root.files)
    (fun made _ slot _ hmade x hx => ?_) (List.Subset.refl _) p
  rcases mem_files_fill hx with ⟨y, hy, -⟩ | hx
  · cases hy
  · exact hmade hx

/-- Removing brings no file about. -/
theorem files_remove_subset (files : Files) (p : Path) :
    (files.remove p).1.root.files ⊆ files.root.files := by
  refine remove_induction (P := fun changed => changed.root.files ⊆ files.root.files)
    (fun left place hleft => ?_) (fun left place name hleft => ?_) (List.Subset.refl _) p
  · rw [clear]
    -- a place that was removed before is not cleared again
    split
    · exact hleft
    · exact List.Subset.trans
        (Directory.files_modify_subset (fun sub => List.nil_subset _) _ _) hleft
  · exact List.Subset.trans
      (Directory.files_modify_subset (Directory.files_erase_subset name) _ _) hleft

theorem root_enter (h : files.enter p = .ok changed) : changed.root = files.root := by
  rw [enter] at h
  obtain ⟨_, -, h⟩ := exists_of_bind_eq_ok h
  cases h
  rfl

end Files

end MatchCheck
