import MatchCheck.Proofs.Check.Renamed
import MatchCheck.Run.Check

/-!
# Reports that are used again

A report that is used again is the one of the last check of the same file that made a report, for
hashes that are the same. After any checks, the cache has for each file just that report
(`FileCheck.get?_cacheAfter`).

The path in the spans of a report is the one under which it was made
(`FileCheck.report_names_maker`). Files are told apart by their places and not by their paths, so it
need not be the path that was asked for: `FileCheck.respelled_names_earlier`.
-/

namespace MatchCheck

/-- The entry that is made of a text under a name. -/
def CacheEntry.make (name text : String) (options : CheckOptions) : CacheEntry :=
  ⟨Hash.ofText text, options.fingerprint,
    .ofFindings (Source.check (.ofString name text) options)⟩

/-- The check of a file: either a remembered entry is taken, or one is made and remembered. -/
theorem Run.checkFile_cases (files : Files) (options : CheckOptions) (useCache : Bool)
    (cache : Cache) (p : Path) (text : String) :
    (∃ entry,
      cache.lookup files p (Hash.ofText text) options.fingerprint = some entry ∧
        checkFile files options useCache cache p text = (⟨entry.report, true⟩, cache)) ∨
      checkFile files options useCache cache p text =
        (⟨(CacheEntry.make p.text text options).report, false⟩,
          cache.store files p (.make p.text text options)) := by
  unfold checkFile
  -- a remembered report is used if it is asked for and there is one
  cases useCache with
  | false => exact .inr rfl
  | true =>
    cases hlookup : cache.lookup files p (Hash.ofText text) options.fingerprint with
    | none => exact .inr (by simp [hlookup, CacheEntry.make])
    | some entry => exact .inl ⟨entry, rfl, by simp [hlookup]⟩

/-- A file that is checked, with the files around it. -/
structure FileCheck where
  files : Files
  options : CheckOptions
  useCache : Bool
  path : Path
  text : String

namespace FileCheck

/-- The key of the file. -/
def key (c : FileCheck) : String :=
  Cache.key c.files c.path

/-- The entry of the file, if one has to be made. -/
def entry (c : FileCheck) : CacheEntry :=
  .make c.path.text c.text c.options

/-- Checks the file. -/
def run (c : FileCheck) (cache : Cache) : Run.FileReport × Cache :=
  Run.checkFile c.files c.options c.useCache cache c.path c.text

/-- The cache after checks, the last of which comes first. -/
def cacheAfter : List FileCheck → Cache
  | [] => .empty
  | c :: earlier => (c.run (cacheAfter earlier)).2

/-- Those of the checks that made a report. -/
def makers : List FileCheck → List FileCheck
  | [] => []
  | c :: earlier =>
    if (c.run (cacheAfter earlier)).1.cached then makers earlier else c :: makers earlier

/-- **What is remembered of a file** is what the last check made that made a report on it. -/
theorem get?_cacheAfter (checks : List FileCheck) (key : String) :
    (cacheAfter checks).get? key = ((makers checks).find? (·.key = key)).map entry := by
  -- on the checks from the last one back: a remembered report leaves the cache as it is
  induction checks with
  | nil => rfl
  | cons c earlier ih =>
    rcases Run.checkFile_cases c.files c.options c.useCache (cacheAfter earlier) c.path c.text with
      ⟨e, -, hrun⟩ | hrun
    · replace hrun : c.run (cacheAfter earlier) = _ := hrun
      rw [cacheAfter, makers, hrun, if_pos rfl]
      exact ih
    · replace hrun : c.run (cacheAfter earlier) = (_, (cacheAfter earlier).insert c.key c.entry) :=
        hrun
      rw [cacheAfter, makers, hrun, if_neg Bool.false_ne_true, List.find?_cons]
      by_cases hkey : c.key = key
      · simp [hkey]
      · simp [hkey, Cache.get?_insert_of_ne _ _ (Ne.symm hkey), ih]

/-- The report of a check is the one of its maker, which is the check itself if the report was not
remembered. -/
theorem exists_maker (c : FileCheck) (earlier : List FileCheck) :
    ∃ maker, (makers (c :: earlier)).find? (·.key = c.key) = some maker ∧
      Hash.ofText maker.text = Hash.ofText c.text ∧
      maker.options.fingerprint = c.options.fingerprint ∧
      (c.run (cacheAfter earlier)).1.report = maker.entry.report := by
  rcases Run.checkFile_cases c.files c.options c.useCache (cacheAfter earlier) c.path c.text with
    ⟨e, hlookup, hrun⟩ | hrun
  · replace hrun : c.run (cacheAfter earlier) = _ := hrun
    -- what was remembered under the key has the hash and the fingerprint of this check
    obtain ⟨hget, hsame⟩ := Option.filter_eq_some_iff.mp hlookup
    obtain ⟨maker, hmaker, rfl⟩ := Option.map_eq_some_iff.mp ((get?_cacheAfter _ _).symm.trans hget)
    obtain ⟨hhash, hfingerprint⟩ : maker.entry.contentHash = Hash.ofText c.text ∧
      maker.entry.fingerprint = c.options.fingerprint := by simpa using hsame
    refine ⟨maker, ?_, hhash, hfingerprint, by rw [hrun]⟩
    rw [makers, hrun, if_pos rfl]
    exact hmaker
  · replace hrun : c.run (cacheAfter earlier) = (⟨c.entry.report, false⟩, _) := hrun
    refine ⟨c, ?_, rfl, rfl, by rw [hrun]⟩
    rw [makers, hrun, if_neg Bool.false_ne_true]
    simp

/-- **Reports name the file the way it was spelled when they were made.** After any checks, the
report of a further one is that of the last check of the same file that made a report, this one
included. The hashes of text and options are the same, and all spans have the path that was given
then. -/
theorem report_names_maker (c : FileCheck) (earlier : List FileCheck) :
    ∃ maker, (makers (c :: earlier)).find? (·.key = c.key) = some maker ∧
      Hash.ofText maker.text = Hash.ofText c.text ∧
      maker.options.fingerprint = c.options.fingerprint ∧
      (c.run (cacheAfter earlier)).1.report = maker.entry.report ∧
      ∀ d ∈ (c.run (cacheAfter earlier)).1.report.diagnostics, ∀ s ∈ d.spans,
        s.file = maker.path.text := by
  -- the report was made by the maker, and all its spans are in the file that was checked then
  obtain ⟨maker, hmaker, hhash, hfingerprint, hreport⟩ := exists_maker c earlier
  refine ⟨maker, hmaker, hhash, hfingerprint, hreport, ?_⟩
  rw [hreport]
  exact fun d hd s hs => Source.file_of_mem_spans hd hs

/-- A check of a file by a path. -/
def spelled (p : Path) : FileCheck :=
  ⟨⟨.file "a.pmxc" (some "match Nope \x7b\x7d\n") .empty, .ofNames []⟩, .default, true, p,
    "match Nope \x7b\x7d\n"⟩

/-- A report that is used again for another spelling of the path names the file the old way. -/
theorem respelled_names_earlier :
    let first := spelled (.ofString "a.pmxc")
    let second := spelled (.ofString "./a.pmxc")
    second.key = first.key ∧
      (second.run (cacheAfter [first])).1.report.diagnostics.flatMap
        (fun d => d.spans.map (·.file)) = ["a.pmxc"] ∧
      second.path.text ≠ "a.pmxc" := by
  decide +kernel

end FileCheck

end MatchCheck
