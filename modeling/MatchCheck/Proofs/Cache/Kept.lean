import MatchCheck.Cache.File
import MatchCheck.Proofs.Diagnostic.Json
import MatchCheck.Proofs.Files.Listed

/-!
# Remembered reports survive being kept

What is remembered can only be what was once stored: no entry comes into being by storing others, by
forgetting, by being written to a file and read from it again or by other changes to files. So a
property of entries that holds of all that are stored holds of all that are ever looked up.
`Cache.All` says it of a cache and `Files.Keeps` of all files that reports are kept in. Each
operation passes one on to the other.
-/

namespace MatchCheck

/-! ### Entries -/

namespace CacheEntry

/-- The numbers in the findings of an entry are machine words. -/
def Fits (e : CacheEntry) : Prop :=
  ∀ d ∈ e.report.diagnostics, d.Fits

/-- What is read of an entry that was written is that entry, if its numbers are machine words. -/
theorem returns : Json.Returns ofJson? toJson Fits := by
  -- the two hashes are machine words in any case, so only the findings are in question
  have hword (w : UInt64) : (Json.natural w.toNat).word? = some w.toNat :=
    Json.word?_natural.mpr ⟨w.toNat_lt, rfl⟩
  refine Diagnostic.returns.items.around (fun e => e.report.diagnostics)
    (fun e ds => ⟨e.contentHash, e.fingerprint, e.report.errors, e.report.warnings, ds⟩)
    (fun _ => rfl) (fun _ => Iff.rfl) fun e => ?_
  cases hfindings : Json.items? Diagnostic.ofJson?
      (.array (e.report.diagnostics.map Diagnostic.toJson)) <;>
    simp [ofJson?, toJson, Json.record?, Json.only?, hword, hfindings]

/-- An entry is written with natural numbers, texts and lists only. -/
theorem plain_toJson (e : CacheEntry) : e.toJson.Plain := by
  refine .object ?_
  simp [Json.Plain.array_map Diagnostic.plain_toJson, Json.Plain.natural]

end CacheEntry

/-! ### Caches -/

namespace Cache

variable {P : CacheEntry → Prop} {cache : Cache}

/-- All entries have a property. -/
def All (P : CacheEntry → Prop) (cache : Cache) : Prop :=
  ∀ x ∈ cache.entries, P x.2

theorem All.empty (P : CacheEntry → Prop) : Cache.empty.All P :=
  fun _ h => nomatch h

theorem All.imp {Q : CacheEntry → Prop} (hPQ : ∀ e, P e → Q e) (h : cache.All P) : cache.All Q :=
  fun x hx => hPQ x.2 (h x hx)

/-- Inserting an entry of the property keeps it. The entry that it takes the place of is dropped. -/
theorem All.insert (h : cache.All P) (key : String) {entry : CacheEntry} (he : P entry) :
    (cache.insert key entry).All P := by
  intro x hx
  rcases List.mem_append.mp hx with hx | hx
  · exact h x (List.mem_filter.mp hx).1
  · obtain rfl := List.mem_singleton.mp hx
    exact he

theorem All.prune (h : cache.All P) (files : Files) : (cache.prune files).All P :=
  fun x hx => h x (List.mem_filter.mp hx).1

/-- An entry that is looked up is there, and it was made from a text and options of the given
hashes. -/
theorem All.lookup (h : cache.All P) {files : Files} {p : Path} {contentHash fingerprint : UInt64}
    {entry : CacheEntry} (hlookup : cache.lookup files p contentHash fingerprint = some entry) :
    P entry ∧ entry.contentHash = contentHash ∧ entry.fingerprint = fingerprint := by
  obtain ⟨hget, hsame⟩ := Option.filter_eq_some_iff.mp hlookup
  obtain ⟨x, hx, rfl⟩ := Option.map_eq_some_iff.mp hget
  exact ⟨h x (List.mem_of_find?_eq_some hx), by simpa using hsame⟩

/-- Members of an object are inserted one after the other. -/
theorem All.foldlM_insert {members : List (String × Json)}
    (hmembers : ∀ m ∈ members, ∀ e, CacheEntry.ofJson? m.2 = some e → P e) {before : Cache}
    (h : before.All P)
    (hread : members.foldlM (fun cache m => do
      return cache.insert m.1 (← CacheEntry.ofJson? m.2)) before = some cache) :
    cache.All P := by
  -- on the members, with the cache that those in front of them have made
  induction members generalizing before with
  | nil =>
    cases hread
    exact h
  | cons m members ih =>
    obtain ⟨hm, hmembers⟩ := List.forall_mem_cons.mp hmembers
    cases hentry : CacheEntry.ofJson? m.2 with
    -- one entry that cannot be read spoils the whole text
    | none => simp [hentry] at hread
    | some e =>
      rw [List.foldlM_cons, hentry] at hread
      exact ih hmembers (h.insert m.1 (hm e hentry)) hread

/-- Reading a written cache comes to reading its entries, key by key. -/
theorem ofText?_text (cache : Cache) :
    ofText? cache.text = ofMembers? (cache.entries.map fun x => (x.1, x.2.toJson)) := by
  -- the writer escapes and indents, which the reader undoes for plain values
  have hplain : cache.toJson.Plain := by
    refine .object (List.forall_mem_singleton.mpr (.object ?_))
    exact List.forall_mem_map.mpr fun x _ => x.2.plain_toJson
  rw [ofText?, text, String.toList_ofList,
    Json.ofChars?_of_written (Json.written_pretty hplain), Option.bind_some]
  simp [ofJson?, toJson, Json.record?, Json.only?]

/-- What is read of a text that was written was written. -/
theorem All.ofText? (h : cache.All P) {read : Cache} (hread : ofText? cache.text = some read) :
    read.All P := by
  rw [ofText?_text] at hread
  refine All.foldlM_insert (List.forall_mem_map.mpr fun x hx e he => ?_) (.empty P) hread
  obtain ⟨-, rfl⟩ := (CacheEntry.returns x.2 e).mp he
  exact h x hx

/-! ### Where reports are kept -/

/-- Names lead to a file that reports are kept in, of whatever project. -/
def IsAt (names : List String) : Prop :=
  [directoryName, fileName] <:+ names

instance (names : List String) : Decidable (IsAt names) :=
  inferInstanceAs (Decidable (_ <:+ _))

/-- The path of the cache ends with the folder and the file of this name, in whatever project. -/
theorem parts_path (root : Path) :
    ∃ above, (path root).parts = above ++ [directoryName, fileName] := by
  obtain ⟨above, habove⟩ : ∃ above, (directory root).parts = above ++ [directoryName] :=
    ⟨_, Path.parts_child root directoryName⟩
  refine ⟨above, ?_⟩
  rw [path, Path.parts_child, habove, List.getLast?_concat, if_neg (by decide),
    List.append_assoc]
  rfl

/-- So do the names that are gone along, from the root or from the working folder. -/
theorem start_path (files : Files) (root : Path) :
    ∃ above, (files.start (path root)).2 = above ++ [directoryName, fileName] := by
  obtain ⟨above, habove⟩ := parts_path root
  rw [Files.start]
  split
  · next habsolute =>
    -- what starts at the root has nothing in front of its first slash
    have hhead : (path root).head = "" := by
      simpa using (Bool.and_eq_true_iff.mp habsolute).1
    cases above with
    | nil => exact absurd (hhead.symm.trans (List.cons.inj habove).1) (by decide)
    | cons part above => exact ⟨above, (List.cons.inj habove).2⟩
  · exact ⟨above, habove⟩

/-- Where the path of a cache leads, reports are kept. -/
theorem isAt_of_walk {files : Files} {root : Path} {place : Place}
    (h : files.walk (files.start (path root)).1 (files.start (path root)).2 = .ok place) :
    IsAt place.names := by
  obtain ⟨above, habove⟩ := start_path files root
  -- neither of the last two names is a dot, so each leads one level down
  rw [habove, List.append_cons] at h
  obtain ⟨folder, hfolder, rfl⟩ := Files.walk_concat_name (by decide) (by decide) h
  obtain ⟨above, -, rfl⟩ := Files.walk_concat_name (by decide) (by decide) hfolder
  exact ⟨above.names, by simp [Place.down]⟩

end Cache

/-- All reports that are kept in files come from entries of a property. -/
def Files.Keeps (P : CacheEntry → Prop) (files : Files) : Prop :=
  ∀ names text cache, (names, some text) ∈ files.root.files → Cache.IsAt names →
    Cache.ofText? text = some cache → cache.All P

namespace Files.Keeps

variable {P : CacheEntry → Prop} {files changed : Files}

theorem imp {Q : CacheEntry → Prop} (hPQ : ∀ e, P e → Q e) (h : files.Keeps P) : files.Keeps Q :=
  fun names text cache hmem hat hread => (h names text cache hmem hat hread).imp hPQ

/-- Nothing is kept where no file is. -/
theorem of_forall_not_isAt (h : ∀ x ∈ files.root.files, ¬ Cache.IsAt x.1) : files.Keeps P :=
  fun _ _ _ hmem hat => absurd hat (h _ hmem)

/-- Removing files removes what is kept in them. -/
theorem of_subset (h : files.Keeps P) (hsubset : changed.root.files ⊆ files.root.files) :
    changed.Keeps P :=
  fun names text cache hmem => h names text cache (hsubset hmem)

/-- Writing elsewhere leaves kept reports as they are. -/
theorem writeFile (h : files.Keeps P) {p : Path} {text? : Option String}
    (hoff : ∀ slot, files.slot? p = .ok (some slot) →
      ¬ Cache.IsAt (slot.directory.names ++ [slot.name]))
    (hwrite : files.writeFile p text? = .ok changed) : changed.Keeps P := by
  obtain ⟨slot, hslot, hsubset⟩ := files_writeFile hwrite
  intro names text cache hmem hat
  -- the file is the one that was written, which is no cache, or it was there before
  rcases List.mem_cons.mp (hsubset hmem) with heq | hmem
  · cases heq
    exact absurd hat (hoff slot hslot)
  · exact h names text cache hmem hat

/-- **What is loaded was kept.** A file that cannot be read as a cache counts as an empty one. -/
theorem load (h : files.Keeps P) (root : Path) : (Cache.load files root).All P := by
  unfold Cache.load
  cases hread : files.read (Cache.path root) with
  | error e => exact .empty P
  | ok text =>
    obtain ⟨place, hwalk, hmem⟩ := listed_of_read hread
    show ((Cache.ofText? text).getD .empty).All P
    -- a file that is no cache counts as an empty one
    cases hcache : Cache.ofText? text with
    | none => exact .empty P
    | some cache => exact h place.names text cache hmem (Cache.isAt_of_walk hwalk) hcache

/-- **Saving keeps the property.** Nothing is written but the cache itself. -/
theorem save (h : files.Keeps P) {cache : Cache} (hcache : cache.All P) (root : Path) :
    (cache.save files root).1.Keeps P := by
  have hmade := h.of_subset (files_makeDirectories_subset files (Cache.directory root))
  rw [Cache.save]
  split
  · next heq => rwa [heq] at hmade
  · next heq =>
    rw [heq] at hmade
    split
    · next hwrite =>
      -- the only new file is the one that is written, and it holds the cache
      obtain ⟨slot, -, hsubset⟩ := files_writeFile hwrite
      intro names text read hmem hat hread
      rcases List.mem_cons.mp (hsubset hmem) with heq | hmem
      · cases heq
        exact hcache.ofText? hread
      · exact hmade names text read hmem hat hread
    · exact hmade

end Files.Keeps

end MatchCheck
