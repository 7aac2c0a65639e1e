import MatchCheck.Proofs.Files.WellFormed
import MatchCheck.Proofs.Run.History
import MatchCheck.Run.Basic

/-!
# Commands keep the tree well formed

A command changes files in two places only: a check may write the file that reports are kept in, and
a fix writes the files that it changes, one after the other. Both keep the tree well formed, so that
it is well formed after every command (`CommandLine.wellFormed_run`) and after whatever happens to
the files of a project (`Event.wellFormed_run`).
-/

namespace MatchCheck

variable {files : Files}

theorem Cache.wellFormed_save (h : files.root.WellFormed) (cache : Cache) (root : Path) :
    (cache.save files root).1.root.WellFormed := by
  have hmade := Files.wellFormed_makeDirectories h (Cache.directory root)
  rw [Cache.save]
  -- the directory may not be made, and then the file may not be written
  split
  · next heq => rwa [heq] at hmade
  · next heq =>
    rw [heq] at hmade
    split
    · next hwrite => exact Files.wellFormed_writeFile hmade hwrite
    · exact hmade

namespace Run

/-- **A check** keeps the tree well formed. -/
theorem wellFormed_check (h : files.root.WellFormed) (paths : List Path) (strict noCache : Bool)
    (style : Style) : (check files paths strict noCache style).files.root.WellFormed := by
  unfold check
  split
  · exact h
  · split
    · exact h
    · dsimp only
      split
      · exact h
      · -- only a check of which every source could be read writes its reports
        dsimp only
        split
        · exact h
        · unfold keep
          exact Cache.wellFormed_save h _ _

/-- A watch begins with a check. -/
theorem wellFormed_watch (h : files.root.WellFormed) (paths : List Path) (strict noCache : Bool)
    (style : Style) : (watch files paths strict noCache style).files.root.WellFormed := by
  simp only [watch, recheck]
  exact wellFormed_check h paths strict noCache style

section Fix

variable (options : CheckOptions) (only? : Option (List String)) (dryRun : Bool) (style : Style)

/-- Fixing one file writes it or nothing. -/
theorem wellFormed_fixFile {p : Path} {progress after : FixProgress}
    (h : progress.files.root.WellFormed)
    (hfix : fixFile options only? dryRun style p progress = .ok after) :
    after.files.root.WellFormed := by
  rw [fixFile] at hfix
  obtain ⟨text, -, hfix⟩ := exists_of_bind_eq_ok hfix
  -- there may be nothing to fix, and in a dry run nothing is written
  split at hfix
  · cases hfix
    exact h
  · dsimp only at hfix
    split at hfix
    · cases hfix
      exact h
    · split at hfix
      · next hwrite =>
        cases hfix
        exact Files.wellFormed_writeFile h hwrite
      · cases hfix

/-- **Fixing files one after the other** keeps the tree well formed, also if one of them fails. -/
theorem wellFormed_fixFiles {progress : FixProgress} (h : progress.files.root.WellFormed)
    (ps : List Path) :
    (fixFiles options only? dryRun style progress ps).1.files.root.WellFormed := by
  induction ps generalizing progress with
  | nil => exact h
  | cons p ps ih =>
    -- the first file that fails ends the run, with what was written before
    unfold fixFiles
    split
    · next hfix => exact ih (wellFormed_fixFile options only? dryRun style h hfix)
    · exact h

end Fix

/-- **A fix** keeps the tree well formed. -/
theorem wellFormed_fix (h : files.root.WellFormed) (paths : List Path) (only? : Option String)
    (dryRun : Bool) (style : Style) :
    (fix files paths only? dryRun style).files.root.WellFormed := by
  unfold fix
  split
  · exact h
  · next config _ =>
    split
    · exact h
    · next sources _ =>
      -- files are changed one after the other, beginning with those that are there
      have hstart : (⟨files, .nothing, 0, 0⟩ : FixProgress).files.root.WellFormed := h
      have hfixed := wellFormed_fixFiles config.options (only?.map Fixed.codesOf) dryRun style
        hstart sources
      dsimp only
      split <;> exact hfixed

end Run

/-- **Every command keeps the tree well formed.** -/
theorem CommandLine.wellFormed_run (h : files.root.WellFormed) (line : CommandLine) :
    (line.run files).files.root.WellFormed := by
  unfold run
  split
  · exact Run.wellFormed_check h _ _ _ _
  · exact Run.wellFormed_watch h _ _ _ _
  · exact Run.wellFormed_fix h _ _ _ _
  · -- the other commands leave the files as they are
    unfold Run.tokens
    split <;> exact h
  · unfold Run.validate
    split
    · exact h
    · split <;> exact h
  · unfold Run.explain
    split <;> exact h

namespace Event

/-- One event keeps the tree well formed. -/
theorem wellFormed_after (h : files.root.WellFormed) (event : Event) :
    (event.after files).root.WellFormed := by
  -- what cannot be done leaves the files as they are
  cases event with
  | write p text? =>
    rw [after]
    cases hwrite : files.writeFile p text? with
    | error e => exact h
    | ok changed => exact Files.wellFormed_writeFile h hwrite
  | makeDirectories p =>
    rw [after]
    exact Files.wellFormed_makeDirectories h p
  | remove p =>
    rw [after]
    exact Files.wellFormed_remove h p
  | enter p =>
    rw [after]
    cases henter : files.enter p with
    | error e => exact h
    | ok changed => exact Files.wellFormed_enter h henter
  | check paths strict noCache style =>
    rw [after]
    exact Run.wellFormed_check h paths strict noCache style

/-- **Whatever happens to the files of a project, the tree stays well formed.** -/
theorem wellFormed_run (h : files.root.WellFormed) (events : List Event) :
    (run files events).root.WellFormed := by
  induction events generalizing files with
  | nil => exact h
  | cons event events ih => exact ih (event.wellFormed_after h)

end Event

end MatchCheck
