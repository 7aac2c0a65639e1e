import MatchCheck.Proofs.Files.Listed

/-!
# Directories in order

The entries of a directory are listed in any order, and each is put where its name belongs
(`Directory.arranged`). What was listed is then found under the same names
(`Directory.find?_arranged`), and names increase in the directory and in all below it
(`Directory.ordered_arranged`).
-/

namespace MatchCheck

namespace Directory

/-- Names increase in a directory and in those below it. -/
def Ordered : Directory → Prop
  | empty => True
  | file name _ rest => (∀ n, (rest.get? n).isSome → name < n) ∧ rest.Ordered
  | folder name entries rest =>
    (∀ n, (rest.get? n).isSome → name < n) ∧ entries.Ordered ∧ rest.Ordered

/-- The directory of the entries that are listed, each put in its place. -/
def arranged : Directory → Directory
  | empty => empty
  | file name text? rest => rest.arranged.put name (.file text?)
  | folder name entries rest => rest.arranged.put name (.folder entries.arranged)

end Directory

namespace Entry

/-- Names increase in a folder and in those below it. -/
def Ordered : Entry → Prop
  | file _ => True
  | folder entries => entries.Ordered

/-- The entry with all that is below it put in its place. -/
def arranged : Entry → Entry
  | file text? => file text?
  | folder entries => folder entries.arranged

/-- What is found at the end of names that lead down from an entry. -/
def find? : Entry → List String → Option Entry
  | file text?, names => if names.isEmpty then some (file text?) else none
  | folder entries, names => entries.find? names

end Entry

namespace Directory

variable {d : Directory} {name : String} {entry : Entry}

/-- An entry in front keeps the order if its name is less than all others. -/
theorem ordered_cons {rest : Directory} :
    (cons name entry rest).Ordered ↔
      (∀ n, (rest.get? n).isSome → name < n) ∧ entry.Ordered ∧ rest.Ordered := by
  cases entry with
  | file text? => simp [cons, Ordered, Entry.Ordered]
  | folder entries => exact Iff.rfl

/-- What is put under a name is found under this name, and nothing else changes. -/
theorem get?_put (name : String) (entry : Entry) (d : Directory) (n : String) :
    (d.put name entry).get? n = if name = n then some entry else d.get? n := by
  split
  · next h =>
    subst h
    exact get?_put_self name entry d
  · next h => exact get?_put_of_ne entry d h

/-- **An entry that is put in its place leaves names in order.** -/
theorem Ordered.put (hd : d.Ordered) (hentry : entry.Ordered) (name : String) :
    (d.put name entry).Ordered := by
  -- along the entries, as far as the name is to go
  induction d using inductionOnCons with
  | empty => exact ordered_cons.mpr ⟨fun n h => absurd h (by simp [get?]), hentry, trivial⟩
  | cons n e rest ih =>
    obtain ⟨hfirst, he, hrest⟩ := ordered_cons.mp hd
    rw [put_cons]
    split
    · -- in place of the entry that the name had
      next hn =>
      subst hn
      exact ordered_cons.mpr ⟨hfirst, hentry, hrest⟩
    · next hne =>
      split
      · -- in front of all entries
        next hlt =>
        refine ordered_cons.mpr ⟨fun m hm => ?_, hentry, hd⟩
        rw [get?_cons] at hm
        split at hm
        · next hnm => exact hnm ▸ hlt
        · exact String.lt_trans hlt (hfirst m hm)
      · -- further back
        next hlt =>
        refine ordered_cons.mpr ⟨fun m hm => ?_, he, ih hrest⟩
        rw [get?_put] at hm
        split at hm
        · next hnm => exact hnm ▸ Std.lt_of_le_of_ne (String.not_lt.mp hlt) hne
        · exact hfirst m hm

/-- **Whatever the order of a list of entries, names are in order once they are arranged.** -/
theorem ordered_arranged (d : Directory) : d.arranged.Ordered := by
  -- each entry is put in its place among those behind it, which are in order already
  induction d with
  | empty => trivial
  | file name text? rest ih =>
    have hentry : (Entry.file text?).Ordered := trivial
    exact ih.put hentry name
  | folder name entries rest ihentries ihrest =>
    have hentry : (Entry.folder entries.arranged).Ordered := ihentries
    exact ihrest.put hentry name

/-- To look down a path is to look for its first name, and then on from there. -/
theorem find?_cons (d : Directory) (name : String) (names : List String) :
    d.find? (name :: names) = (d.get? name).bind (·.find? names) := by
  rw [find?]
  cases d.get? name with
  | none => rfl
  | some entry => cases entry <;> rfl

/-- Each name leads to what it led to, arranged. -/
theorem get?_arranged (d : Directory) (name : String) :
    d.arranged.get? name = (d.get? name).map Entry.arranged := by
  induction d with
  | empty => rfl
  | file n text? rest ih =>
    rw [arranged, get?_put, get?, ih]
    split <;> rfl
  | folder n entries rest _ ih =>
    rw [arranged, get?_put, get?, ih]
    split <;> rfl

/-- **What is listed is found where it was.** -/
theorem find?_arranged (d : Directory) (names : List String) :
    d.arranged.find? names = (d.find? names).map Entry.arranged := by
  induction names generalizing d with
  | nil => rfl
  | cons name names ih =>
    rw [find?_cons, find?_cons, get?_arranged]
    cases d.get? name with
    | none => rfl
    | some entry =>
      -- below a folder all is put in order too; below a file there is nothing
      cases entry with
      | folder entries => exact ih entries
      | file text? =>
        show (if names.isEmpty then _ else _) = Option.map _ (if names.isEmpty then _ else _)
        split <;> rfl

/-- A path in two parts is gone part by part. -/
theorem find?_append (d : Directory) (names more : List String) :
    d.find? (names ++ more) = (d.find? names).bind (·.find? more) := by
  induction names generalizing d with
  | nil => rfl
  | cons name names ih =>
    rw [List.cons_append, find?_cons, find?_cons]
    cases d.get? name with
    | none => rfl
    | some entry =>
      -- from a file no further name leads on
      cases entry with
      | folder entries => exact ih entries
      | file text? => cases names <;> rfl

end Directory

end MatchCheck
