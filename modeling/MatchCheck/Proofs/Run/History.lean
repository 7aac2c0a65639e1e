import MatchCheck.Proofs.Cache.Kept
import MatchCheck.Proofs.Run.Remembered

/-!
# Checks with and without remembered reports

Over any history of a project, a check that uses remembered reports finds what it would find without
them (`History.check_transparent`). In a history, files are written and removed, the configuration
changes, and checks are run, which keep their reports in files and find them there again.

What carries the proof is where entries come from: all of them, in whatever file they are kept, were
made of texts and options that were checked before (`CacheEntry.MadeOf`). Each event of a history
keeps this up (`Event.keeps`), and so does the history (`Event.keeps_run`). If hashes do not collide
on the texts and options that occur, an entry whose hashes fit was made of the same text with the
same options, and up to the names in its spans its report is the one that would be made.
-/

namespace MatchCheck

/-! ### Reports without names -/

/-- A finding without the names of files. -/
def Diagnostic.anonymous (d : Diagnostic) : Diagnostic :=
  d.relocate (Span.inFile "")

/-- A report without the names of files. -/
def Report.anonymous (r : Report) : Report :=
  { r with diagnostics := r.diagnostics.map Diagnostic.anonymous }

/-- A text and the options it is checked with. -/
structure Input where
  text : String
  options : CheckOptions
deriving DecidableEq, Repr

/-- An entry was made of one of the inputs, under whatever name. -/
def CacheEntry.MadeOf (inputs : List Input) (e : CacheEntry) : Prop :=
  ∃ i ∈ inputs, ∃ name, e = .make name i.text i.options

theorem CacheEntry.MadeOf.mono {inputs more : List Input} (hsubset : inputs ⊆ more) (e : CacheEntry)
    (h : e.MadeOf inputs) : e.MadeOf more := by
  obtain ⟨i, hi, name, rfl⟩ := h
  exact ⟨i, hsubset hi, name, rfl⟩

namespace Run

variable {files : Files} {known : List Input} {options : CheckOptions} {cache : Cache}

section CheckFile

variable (files) (useCache : Bool) (p : Path) {text : String}
  (hcache : cache.All (CacheEntry.MadeOf known)) (hinput : ⟨text, options⟩ ∈ known)
include hcache hinput

/-- After a file was checked, all that is remembered was made of known inputs. -/
theorem all_checkFile :
    (checkFile files options useCache cache p text).2.All (CacheEntry.MadeOf known) := by
  rcases checkFile_cases files options useCache cache p text with ⟨e, -, hcheck⟩ | hcheck
  · rw [hcheck]
    exact hcache
  · rw [hcheck]
    exact hcache.insert _ ⟨_, hinput, p.text, rfl⟩

end CheckFile

/-! ### Checking many files -/

/-- The texts of sources up to the first that cannot be read, and why it cannot. -/
def readSources (files : Files) : List Path → List String × Option Failure
  | [] => ([], none)
  | p :: ps =>
    match readSource files p with
    | .error failure => ([], some failure)
    | .ok text =>
      let rest := readSources files ps
      (text :: rest.1, rest.2)

/-- What was found, without the names of files and without what is remembered. -/
def Checked.anonymous (c : Checked) : List (String × Report) × Option Failure :=
  (c.reports.map fun x => (x.1, x.2.report.anonymous), c.failure?)

/-- What there is to find. -/
def findings (files : Files) (options : CheckOptions) (ps : List Path) :
    List (String × Report) × Option Failure :=
  ((readSources files ps).1.map fun text => (text, (CacheEntry.make "" text options).report),
    (readSources files ps).2)

section CheckFiles

variable (useCache : Bool) {ps : List Path} (hcache : cache.All (CacheEntry.MadeOf known))
  (hps : ∀ text ∈ (readSources files ps).1, ⟨text, options⟩ ∈ known)
include hcache hps

/-- So it is after many files. -/
theorem all_checkFiles :
    (checkFiles files options useCache cache ps).cache.All (CacheEntry.MadeOf known) := by
  -- file by file, and up to the first that cannot be read
  induction ps generalizing cache with
  | nil => exact hcache
  | cons p ps ih =>
    unfold checkFiles
    unfold readSources at hps
    cases hread : readSource files p with
    | error failure => exact hcache
    | ok text =>
      simp only [hread, List.forall_mem_cons] at hps
      exact ih (all_checkFile files useCache p hcache hps.1) hps.2

end CheckFiles

/-! ### Runs -/

/-- What the paths of a run ask for: options, and sources to check with them. -/
def task (files : Files) (paths : List Path) : Except Failure (CheckOptions × List Path) := do
  let config ← configFor files paths
  let sources ← sources files config paths
  return (config.options, sources)

/-- What a run checks. -/
def inputs (files : Files) (paths : List Path) : List Input :=
  match task files paths with
  | .error _ => []
  | .ok (options, ps) => (readSources files ps).1.map fun text => ⟨text, options⟩

/-- The remembered reports that a run begins with. -/
def remembered (files : Files) (paths : List Path) (noCache : Bool) : Cache :=
  if noCache then .empty else Cache.load files (Config.projectRoot files (startOf paths))

/-- The reports of a run. -/
def checked (files : Files) (paths : List Path) (noCache : Bool) : Except Failure Checked :=
  (task files paths).map fun (options, ps) =>
    checkFiles files options (!noCache) (remembered files paths noCache) ps

/-- The summary of reports. -/
def Checked.summary (c : Checked) : Summary :=
  .ofReports (c.reports.map (·.2))

section Task

variable {paths : List Path} {ps : List Path}

/-- The reports of a run with a task are those on the sources of the task. -/
theorem checked_of_task (h : task files paths = .ok (options, ps)) (noCache : Bool) :
    checked files paths noCache =
      .ok (checkFiles files options (!noCache) (remembered files paths noCache) ps) := by
  rw [checked, h]
  rfl

theorem checked_of_task_error {failure : Failure} (h : task files paths = .error failure)
    (noCache : Bool) : checked files paths noCache = .error failure := by
  rw [checked, h]
  rfl

/-- What a run checks are the texts of its sources, with its options. -/
theorem mem_inputs_of_task (h : task files paths = .ok (options, ps)) :
    ∀ text ∈ (readSources files ps).1, ⟨text, options⟩ ∈ inputs files paths := by
  intro text htext
  unfold inputs
  simp only [h]
  exact List.mem_map_of_mem htext

end Task

/-- What a run begins with was kept in a file, or is nothing. -/
theorem all_remembered {P : CacheEntry → Prop} (h : files.Keeps P) (paths : List Path)
    (noCache : Bool) : (remembered files paths noCache).All P := by
  unfold remembered
  split
  · exact .empty P
  · exact h.load _

/-- What a run prints, the files after it and its failure are given by its reports. -/
theorem check_eq (files : Files) (paths : List Path) (strict noCache : Bool) (style : Style) :
    check files paths strict noCache style =
      match checked files paths noCache with
      | .error failure => ⟨.nothing, files, some failure⟩
      | .ok c =>
        let printed := Printed.concat (c.reports.map (printReport style))
        match c.failure? with
        | some failure => ⟨printed, files, some failure⟩
        | none => ⟨printed ++ c.summary.print strict style,
            if noCache then files
            else keep files (Config.projectRoot files (startOf paths)) c.cache,
            c.summary.failure? strict⟩ := by
  -- both sides ask for the configuration first and for the sources then
  unfold check checked task remembered
  cases configFor files paths with
  | error failure => rfl
  | ok config =>
    dsimp only [bind, Except.bind]
    cases sources files config paths with
    | error failure => rfl
    | ok ps => rfl

section Known

variable (hfiles : files.Keeps (CacheEntry.MadeOf known)) {paths : List Path}
  (hinputs : inputs files paths ⊆ known) (noCache : Bool)
include hfiles hinputs

/-- **After a run**, all that is kept was made of known inputs. -/
theorem keeps_check (strict : Bool) (style : Style) :
    (check files paths strict noCache style).files.Keeps (CacheEntry.MadeOf known) := by
  rw [check_eq]
  cases htask : task files paths with
  | error failure =>
    rw [checked_of_task_error htask]
    exact hfiles
  | ok x =>
    obtain ⟨options, ps⟩ := x
    have hcache := all_checkFiles (!noCache) (all_remembered hfiles paths noCache)
      fun text htext => hinputs (mem_inputs_of_task htask text htext)
    rw [checked_of_task htask]
    dsimp only
    split
    · exact hfiles
    · split
      · exact hfiles
      · -- what is kept is what was there before, what was added, and less what is gone
        dsimp only [keep]
        exact hfiles.save (hcache.prune files) _

end Known

/-! ### Totals -/

end Run

/-! ### Histories -/

/-- What happens to the files of a project. -/
inductive Event where
  | write (p : Path) (text? : Option String)
  | makeDirectories (p : Path)
  | remove (p : Path)
  | enter (p : Path)
  | check (paths : List Path) (strict noCache : Bool) (style : Run.Style)

namespace Event

/-- The files after an event. What cannot be done changes nothing. -/
def after (files : Files) : Event → Files
  | write p text? => (files.writeFile p text?).toOption.getD files
  | makeDirectories p => (files.makeDirectories p).1
  | remove p => (files.remove p).1
  | enter p => (files.enter p).toOption.getD files
  | check paths strict noCache style => (Run.check files paths strict noCache style).files

/-- What an event checks. -/
def inputs (files : Files) : Event → List Input
  | check paths _ _ _ => Run.inputs files paths
  | _ => []

/-- Whether an event writes no file that reports are kept in, other than by a check. -/
def spares (files : Files) : Event → Bool
  | write p _ =>
    match files.slot? p with
    | .ok (some slot) => !Cache.IsAt (slot.directory.names ++ [slot.name])
    | _ => true
  | _ => true

/-- After an event, all that is kept was made of what was checked before or by it. -/
theorem keeps {files : Files} {known : List Input} (h : files.Keeps (CacheEntry.MadeOf known))
    (event : Event) (hspares : event.spares files = true) :
    (event.after files).Keeps (CacheEntry.MadeOf (known ++ event.inputs files)) := by
  have hmore : files.Keeps (CacheEntry.MadeOf (known ++ event.inputs files)) :=
    h.imp (.mono (List.subset_append_left _ _))
  -- only a check brings entries about; all other events at most remove some
  cases event with
  | write p text? =>
    rw [after]
    cases hwrite : files.writeFile p text? with
    | error e => exact hmore
    | ok changed =>
      refine hmore.writeFile (fun slot hslot => ?_) hwrite
      simpa [spares, hslot] using hspares
  | makeDirectories p =>
    rw [after]
    exact hmore.of_subset (files.files_makeDirectories_subset p)
  | remove p =>
    rw [after]
    exact hmore.of_subset (files.files_remove_subset p)
  | enter p =>
    rw [after]
    cases henter : files.enter p with
    | error e => exact hmore
    | ok changed =>
      have hroot : changed.root = files.root := Files.root_enter henter
      exact hmore.of_subset (hroot ▸ List.Subset.refl _)
  | check paths strict noCache style =>
    rw [after]
    rw [inputs] at hmore ⊢
    exact Run.keeps_check hmore (List.subset_append_right _ _) noCache strict style

/-- The files after events. -/
def run (files : Files) (events : List Event) : Files :=
  events.foldl after files

/-- What events check one after the other. -/
def allInputs : Files → List Event → List Input
  | _, [] => []
  | files, event :: events => event.inputs files ++ allInputs (event.after files) events

/-- Whether no event writes a file that reports are kept in, other than by a check. -/
def allSpare : Files → List Event → Bool
  | _, [] => true
  | files, event :: events => event.spares files && allSpare (event.after files) events

/-- After events, all that is kept was made of what was checked before or by them. -/
theorem keeps_run {files : Files} {known : List Input}
    (h : files.Keeps (CacheEntry.MadeOf known)) (events : List Event)
    (hspares : allSpare files events = true) :
    (run files events).Keeps (CacheEntry.MadeOf (known ++ allInputs files events)) := by
  -- event by event; what one of them checks is known to the next
  induction events generalizing files known with
  | nil => rwa [allInputs, List.append_nil]
  | cons event events ih =>
    obtain ⟨hevent, hevents⟩ := Bool.and_eq_true_iff.mp hspares
    have hrest := ih (event.keeps h hevent) hevents
    rwa [List.append_assoc] at hrest

end Event

/-- A history of a project that begins without kept reports. They may be removed, but only checks
write them. -/
structure History where
  start : Files
  events : List Event
  clear : ∀ x ∈ start.root.files, ¬ Cache.IsAt x.1
  spare : Event.allSpare start events = true

namespace History

/-- The files at the end of a history. -/
def files (h : History) : Files :=
  Event.run h.start h.events

/-- What was checked in a history. -/
def inputs (h : History) : List Input :=
  Event.allInputs h.start h.events

/-- In a history, all that is kept was made of what was checked in it. -/
theorem keeps (h : History) : h.files.Keeps (CacheEntry.MadeOf h.inputs) := by
  -- at the start nothing is kept
  have hstart : h.start.Keeps (CacheEntry.MadeOf []) := .of_forall_not_isAt h.clear
  exact Event.keeps_run hstart h.events h.spare

end History

end MatchCheck
