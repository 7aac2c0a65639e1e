import MatchCheck.Check.Basic
import MatchCheck.Files.Basic
import MatchCheck.Hash.Sip

/-!
# Remembered reports

The report of a file is remembered together with the hash of its text and the fingerprint of the
options it was made with. It is used again as long as both are the same. Files are told apart by
their place in the tree, so one file has one report however its path is spelled.
-/

namespace MatchCheck

/-- A report on one file. Its numbers are machine words. -/
structure Report where
  errors : UInt64
  warnings : UInt64
  diagnostics : List Diagnostic
deriving DecidableEq, Repr

/-- The report of findings. -/
def Report.ofFindings (ds : List Diagnostic) : Report :=
  ⟨(Diagnostic.errorCount ds).toUInt64, (Diagnostic.warningCount ds).toUInt64, ds⟩

/-- A report and what it was made from. -/
structure CacheEntry where
  contentHash : UInt64
  fingerprint : UInt64
  report : Report
deriving DecidableEq, Repr

/-- Reports by the keys of their files. No key occurs twice. -/
structure Cache where
  entries : List (String × CacheEntry)
deriving DecidableEq, Repr

namespace Cache

/-- No reports. -/
def empty : Cache :=
  ⟨[]⟩

/-- The key of a file: its path from the root, or its path as given if it names nothing. -/
def key (files : Files) (p : Path) : String :=
  ((files.canonical? p).getD p).text

/-- The entry of a key. -/
def get? (cache : Cache) (key : String) : Option CacheEntry :=
  (cache.entries.find? (·.1 = key)).map (·.2)

/-- Remembers an entry in place of the one that was there. -/
def insert (cache : Cache) (key : String) (entry : CacheEntry) : Cache :=
  ⟨cache.entries.filter (·.1 ≠ key) ++ [(key, entry)]⟩

/-- The entry of a file, if it was made from the same text with the same options. -/
def lookup (cache : Cache) (files : Files) (p : Path) (contentHash fingerprint : UInt64) :
    Option CacheEntry :=
  (cache.get? (key files p)).filter fun entry =>
    entry.contentHash = contentHash && entry.fingerprint = fingerprint

/-- Remembers the entry of a file. -/
def store (cache : Cache) (files : Files) (p : Path) (entry : CacheEntry) : Cache :=
  cache.insert (key files p) entry

/-- Forgets the files that are gone. -/
def prune (cache : Cache) (files : Files) : Cache :=
  ⟨cache.entries.filter fun entry => files.has (.ofString entry.1)⟩

@[simp] theorem get?_empty (key : String) : empty.get? key = none := rfl

@[simp] theorem get?_insert_self (cache : Cache) (key : String) (entry : CacheEntry) :
    (cache.insert key entry).get? key = some entry := by
  have h : (cache.entries.filter (·.1 ≠ key)).find? (·.1 = key) = none := by
    simp [List.find?_eq_none]
  rw [get?, insert, List.find?_append, h]
  simp

theorem get?_insert_of_ne (cache : Cache) {key other : String} (entry : CacheEntry)
    (h : other ≠ key) : (cache.insert key entry).get? other = cache.get? other := by
  have hnew : [(key, entry)].find? (·.1 = other) = none := by
    simpa using Ne.symm h
  have hold : (cache.entries.filter (·.1 ≠ key)).find? (·.1 = other) =
      cache.entries.find? (·.1 = other) := by
    rw [List.find?_filter]
    congr 1
    funext e
    by_cases he : e.1 = other <;> simp [he, h]
  rw [get?, get?, insert, List.find?_append, hnew, hold, Option.or_none]

end Cache

end MatchCheck
