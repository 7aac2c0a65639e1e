import MatchCheck.Cache.Basic
import MatchCheck.Diagnostic.Json
import MatchCheck.Files.Change

/-!
# The file of remembered reports

Reports are kept from one run to the next in a JSON file below the root of the project. A file that
cannot be read as such counts as empty.
-/

namespace MatchCheck

namespace CacheEntry

/-- An entry as JSON. -/
def toJson (e : CacheEntry) : Json :=
  .object [("content_hash", .natural e.contentHash.toNat),
    ("config_fingerprint", .natural e.fingerprint.toNat),
    ("errors", .natural e.report.errors.toNat), ("warnings", .natural e.report.warnings.toNat),
    ("diagnostics", .array (e.report.diagnostics.map Diagnostic.toJson))]

/-- Reads an entry. -/
def ofJson? (j : Json) : Option CacheEntry := do
  let [some contentHash, some fingerprint, some errors, some warnings, some diagnostics] ←
    j.record? 5 ["content_hash", "config_fingerprint", "errors", "warnings", "diagnostics"] | none
  return ⟨(← contentHash.word?).toUInt64, (← fingerprint.word?).toUInt64,
    ⟨(← errors.word?).toUInt64, (← warnings.word?).toUInt64,
      ← diagnostics.items? Diagnostic.ofJson?⟩⟩

end CacheEntry

namespace Cache

/-- The reports as JSON. -/
def toJson (cache : Cache) : Json :=
  .object [("files", .object (cache.entries.map fun (key, entry) => (key, entry.toJson)))]

/-- Reads members of an object as entries. Of a key that is repeated, the last entry stays. -/
def ofMembers? (members : List (String × Json)) : Option Cache :=
  members.foldlM (fun cache (key, value) => do
    return cache.insert key (← CacheEntry.ofJson? value)) empty

/-- Reads reports. -/
def ofJson? (j : Json) : Option Cache := do
  let [some (.object members)] ← j.record? 1 ["files"] | none
  ofMembers? members

/-- The text of the file. -/
def text (cache : Cache) : String :=
  String.ofList cache.toJson.pretty

/-- The reports in a text. -/
def ofText? (s : String) : Option Cache :=
  (Json.ofChars? s.toList).bind ofJson?

/-- The name of the directory that holds the file. -/
def directoryName : String := ".pmxc-cache"

/-- The name of the file. -/
def fileName : String := "check-cache.json"

/-- The directory of the file of a project. -/
def directory (root : Path) : Path :=
  root.child directoryName

/-- The path of the file of a project. -/
def path (root : Path) : Path :=
  (directory root).child fileName

/-- The reports that are kept in a project. -/
def load (files : Files) (root : Path) : Cache :=
  match files.read (path root) with
  | .ok text => (ofText? text).getD empty
  | .error _ => empty

/-- Keeps the reports in a project. If that fails, directories may have been made. -/
def save (cache : Cache) (files : Files) (root : Path) : Files × Option FileError :=
  match files.makeDirectories (directory root) with
  | (files, some e) => (files, some e)
  | (files, none) =>
    match files.write (path root) cache.text with
    | .ok files => (files, none)
    | .error e => (files, some e)

end Cache

end MatchCheck
