import Mathlib.Data.List.Nodup
import MatchCheck.Proofs.Files.WellFormed
import MatchCheck.Run.Check

/-!
# Sources that are named more than once

The sources that paths name are gathered path by path, and of equal neighbours one is kept. So a
source is never listed twice in a row, but it is listed again when a later path names it after
another source came in between. `Run.sources_distinct_iff` says that this is the only way to be
listed twice. One path alone never names a source twice, since in a tree that is `Tidy` no two files
have the same names above them.

Every source is checked as often as it is listed: `Run.named_again_checked_again`.
-/

namespace MatchCheck

theorem Path.same_iff {p q : Path} : p.same q ↔ p.components = q.components :=
  decide_eq_true_iff

namespace Run

/-- No two paths in a list take the same steps. -/
def Distinct (ps : List Path) : Prop :=
  ps.Pairwise fun s t => ¬ s.same t

/-- What comes in between two paths of a list that take the same steps takes these steps too. -/
def NeverReturns (ps : List Path) : Prop :=
  ∀ s t u, [s, t, u].Sublist ps → s.same u → s.same t

/-! ### Equal neighbours -/

section DropRepeats

variable {p q : Path} {ps : List Path}

/-- The first of a list stays. -/
theorem exists_dropRepeats_cons (p : Path) (ps : List Path) :
    ∃ qs, dropRepeats (p :: ps) = p :: qs := by
  rw [dropRepeats]
  split
  · exact ⟨[], rfl⟩
  · split <;> exact ⟨_, rfl⟩

/-- A path in front of one that takes the same steps stands for it. -/
theorem dropRepeats_cons_of_same (h : p.same q) (ps : List Path) :
    ∃ qs, dropRepeats (q :: ps) = q :: qs ∧ dropRepeats (p :: q :: ps) = p :: qs := by
  obtain ⟨qs, hqs⟩ := exists_dropRepeats_cons q ps
  refine ⟨qs, hqs, ?_⟩
  rw [dropRepeats, hqs]
  exact if_pos h

theorem dropRepeats_cons_of_not_same (h : ¬ p.same q) (ps : List Path) :
    dropRepeats (p :: q :: ps) = p :: dropRepeats (q :: ps) := by
  obtain ⟨qs, hqs⟩ := exists_dropRepeats_cons q ps
  rw [dropRepeats, hqs]
  exact if_neg h

theorem dropRepeats_sublist (ps : List Path) : (dropRepeats ps).Sublist ps := by
  induction ps with
  | nil => exact .slnil
  | cons p ps ih =>
    rw [dropRepeats]
    split
    · exact List.singleton_sublist.mpr List.mem_cons_self
    · next q qs hqs =>
      rw [hqs] at ih
      -- the path is put in front of what stays, or in the place of its first
      split
      · exact ((List.sublist_cons_self q qs).trans ih).cons_cons p
      · exact ih.cons_cons p

/-- What is left out takes the same steps as something that stays. -/
theorem exists_same_of_mem (h : q ∈ ps) : ∃ t ∈ dropRepeats ps, t.same q := by
  induction ps with
  | nil => cases h
  | cons p ps ih =>
    rcases List.mem_cons.mp h with rfl | h
    · obtain ⟨qs, hqs⟩ := exists_dropRepeats_cons q ps
      exact ⟨q, hqs ▸ List.mem_cons_self, Path.same_iff.mpr rfl⟩
    · obtain ⟨t, ht, hsame⟩ := ih h
      rw [dropRepeats]
      split
      · next hnil =>
        rw [hnil] at ht
        cases ht
      · next r rs hrs =>
        rw [hrs] at ht
        split
        · next hpr =>
          rcases List.mem_cons.mp ht with rfl | ht
          · -- the one that stood for it is left out in turn, for the path in front of it
            refine ⟨p, List.mem_cons_self, Path.same_iff.mpr ?_⟩
            exact (Path.same_iff.mp hpr).trans (Path.same_iff.mp hsame)
          · exact ⟨t, List.mem_cons_of_mem p ht, hsame⟩
        · exact ⟨t, List.mem_cons_of_mem p ht, hsame⟩

/-- No two neighbours that stay take the same steps. -/
theorem isChain_dropRepeats (ps : List Path) :
    (dropRepeats ps).IsChain fun s t => ¬ s.same t := by
  induction ps with
  | nil => exact .nil
  | cons p ps ih =>
    rw [dropRepeats]
    split
    · exact .singleton p
    · next q qs hqs =>
      rw [hqs] at ih
      split
      · next hpq =>
        cases ih with
        | singleton => exact .singleton p
        | cons_cons hnext ih =>
          -- the path takes the place of the one that it repeats, whose steps are the same
          refine .cons_cons (fun hsame => hnext ?_) ih
          rw [Path.same_iff] at hpq hsame ⊢
          exact hpq.symm.trans hsame
      · next hpq => exact .cons_cons hpq ih

theorem neverReturns_cons :
    NeverReturns (p :: ps) ↔
      NeverReturns ps ∧ ∀ t u, [t, u].Sublist ps → p.same u → p.same t := by
  constructor
  · intro h
    exact ⟨fun s t u hsub => h s t u (hsub.cons p), fun t u hsub => h p t u (hsub.cons_cons p)⟩
  · rintro ⟨hrest, hfirst⟩ s t u hsub
    -- the three may begin with the path in front
    rcases List.sublist_cons_iff.mp hsub with hsub | ⟨r, hr, hsub⟩
    · exact hrest s t u hsub
    · obtain ⟨rfl, rfl⟩ := List.cons.inj hr
      exact hfirst t u hsub

/-- In front of a path that takes other steps, a path is not listed again exactly if it does not
return. -/
theorem forall_not_same_iff (hpq : ¬ p.same q) :
    (∀ t ∈ dropRepeats (q :: ps), ¬ p.same t) ↔
      ∀ t u, [t, u].Sublist (q :: ps) → p.same u → p.same t := by
  constructor
  · intro h t u hsub hpu
    -- if it returned, the path that stands for it would be listed
    have hu : u ∈ q :: ps := hsub.subset (by simp)
    obtain ⟨u', hu', hsame⟩ := exists_same_of_mem hu
    refine absurd ?_ (h u' hu')
    rw [Path.same_iff] at hpu hsame ⊢
    exact hpu.trans hsame.symm
  · intro h t ht hpt
    -- listed behind `q`, it would return with `q` in between
    rcases List.mem_cons.mp ((dropRepeats_sublist _).subset ht) with rfl | ht
    · exact hpq hpt
    · exact hpq (h q t ((List.singleton_sublist.mpr ht).cons_cons q) hpt)

/-- **A path is listed twice only if it returns.** -/
theorem distinct_dropRepeats_iff (ps : List Path) :
    Distinct (dropRepeats ps) ↔ NeverReturns ps := by
  induction ps with
  | nil =>
    refine iff_of_true .nil fun s t u h => ?_
    cases h
  | cons p ps ih =>
    cases ps with
    | nil =>
      refine iff_of_true (List.pairwise_singleton _ p) fun s t u h => ?_
      exact absurd h.length_le (by simp)
    | cons q ps =>
      by_cases hpq : p.same q
      · -- `q` is left out, and `p` stands for it
        obtain ⟨qs, hqs, hpqs⟩ := dropRepeats_cons_of_same hpq ps
        have hboth : ∀ t : Path, p.same t ↔ q.same t := by
          intro t
          rw [Path.same_iff, Path.same_iff, Path.same_iff.mp hpq]
        have hdistinct : Distinct (p :: qs) ↔ Distinct (q :: qs) := by
          simp only [Distinct, List.pairwise_cons, hboth]
        rw [hpqs, hdistinct, ← hqs, ih]
        refine ⟨fun h => neverReturns_cons.mpr ⟨h, fun t u hsub hpu => ?_⟩,
          fun h => (neverReturns_cons.mp h).1⟩
        rcases List.sublist_cons_iff.mp hsub with hsub | ⟨r, hr, -⟩
        · exact (hboth t).mpr ((neverReturns_cons.mp h).2 t u hsub ((hboth u).mp hpu))
        · obtain ⟨rfl, -⟩ := List.cons.inj hr
          exact hpq
      · -- `q` is in between, so that `p` must not come again
        rw [dropRepeats_cons_of_not_same hpq, Distinct, List.pairwise_cons,
          forall_not_same_iff hpq, neverReturns_cons, and_comm]
        exact and_congr_left fun _ => ih

end DropRepeats

end Run

/-! ### Trees in which names are told apart -/

namespace Directory

variable {d entries : Directory} {name : String} {names : List String}

theorem isSome_get?_cons {n : String} (e : Entry) {rest : Directory}
    (h : (rest.get? name).isSome) : ((cons n e rest).get? name).isSome := by
  rw [get?_cons]
  split
  · rfl
  · exact h

/-- A visible file is below an entry. -/
theorem exists_of_mem_visibleFiles (h : names ∈ d.visibleFiles) :
    ∃ name below, names = name :: below ∧ (d.get? name).isSome := by
  -- entry by entry: a file is below the first one or below one further back
  induction d with
  | empty => cases h
  | file n text? rest ih =>
    rcases List.mem_cons.mp h with rfl | h
    · exact ⟨n, [], rfl, by simp [get?]⟩
    · obtain ⟨name, below, rfl, hname⟩ := ih h
      exact ⟨name, below, rfl, isSome_get?_cons (.file text?) hname⟩
  | folder n entries rest _ ih =>
    rcases List.mem_append.mp h with h | h
    · split at h
      · cases h
      · obtain ⟨below, -, rfl⟩ := List.mem_map.mp h
        exact ⟨n, below, rfl, by simp [get?]⟩
    · obtain ⟨name, below, rfl, hname⟩ := ih h
      exact ⟨name, below, rfl, isSome_get?_cons (.folder entries) hname⟩

/-- On the way to a file in a tidy directory there are names of entries alone. -/
theorem Tidy.isName_of_mem (hd : d.Tidy) (h : names ∈ d.visibleFiles) :
    ∀ name ∈ names, Path.IsName name := by
  -- names of entries on the whole way down, so also inside folders
  induction d generalizing names with
  | empty => cases h
  | file n text? rest ih =>
    rcases List.mem_cons.mp h with rfl | h
    · exact List.forall_mem_singleton.mpr hd.1.1
    · exact ih hd.2 h
  | folder n entries rest ihentries ihrest =>
    rcases List.mem_append.mp h with h | h
    · split at h
      · cases h
      · obtain ⟨below, hbelow, rfl⟩ := List.mem_map.mp h
        exact List.forall_mem_cons.mpr ⟨hd.1.1, ihentries hd.2.1 hbelow⟩
    · exact ihrest hd.2.2 h

/-- No two files have the same names above them. -/
theorem Tidy.nodup_visibleFiles (hd : d.Tidy) : d.visibleFiles.Nodup := by
  -- what is further back in a directory begins with another name
  have hother : ∀ {n below : _} {rest : Directory}, (rest.get? n).isNone →
      n :: below ∉ rest.visibleFiles := by
    intro n below rest hnone hmem
    obtain ⟨name, below', heq, hsome⟩ := exists_of_mem_visibleFiles hmem
    obtain ⟨rfl, -⟩ := List.cons.inj heq
    rw [Option.isNone_iff_eq_none.mp hnone] at hsome
    cases hsome
  induction d with
  | empty => exact List.nodup_nil
  | file n text? rest ih => exact List.nodup_cons.mpr ⟨hother hd.1.2, ih hd.2⟩
  | folder n entries rest ihentries ihrest =>
    refine List.nodup_append'.mpr ⟨?_, ihrest hd.2.2, ?_⟩
    · split
      · exact List.nodup_nil
      · exact (ihentries hd.2.1).map (List.cons_injective)
    · intro names hnames hrest
      split at hnames
      · cases hnames
      · obtain ⟨below, -, rfl⟩ := List.mem_map.mp hnames
        exact hother hd.1.2 hrest

end Directory

namespace Path

variable {name : String}

theorem IsName.ne_empty (h : IsName name) : name ≠ "" := by
  rintro rfl
  cases h

theorem IsName.ne_dot (h : IsName name) : name ≠ "." := by
  rintro rfl
  cases h

theorem eq_of_parts_eq {p q : Path} (h : p.parts = q.parts) : p = q := by
  obtain ⟨head, tail⟩ := p
  obtain ⟨rfl, rfl⟩ := List.cons.inj h
  rfl

/-- With a slash in it, an empty front of a path is the root. -/
theorem components_concat (head : String) (front : List String) (last : String) :
    (⟨head, front ++ [last]⟩ : Path).components =
      (if head = "" then [.root] else if head = "." then [.here] else (step? head).toList) ++
        (front.filterMap step? ++ (step? last).toList) := by
  -- there is a slash, so that the front is empty only at the root
  have habsolute : (⟨head, front ++ [last]⟩ : Path).isAbsolute = decide (head = "") := by
    simp [isAbsolute]
  unfold components
  rw [habsolute, List.filterMap_append]
  simp only [decide_eq_true_eq]
  rfl

/-- The path to a name takes one step more. -/
theorem components_child (p : Path) (h : IsName name) :
    (p.child name).components = p.components ++ [.name name] := by
  obtain ⟨head, tail⟩ := p
  have hstep : (step? name).toList = [.name name] := congrArg Option.toList h
  have hempty : step? "" = none := rfl
  have hparts := parts_child ⟨head, tail⟩ name
  -- a path without a slash is empty or a single part; with one it may end in a slash
  rcases tail.eq_nil_or_concat' with rfl | ⟨front, last, rfl⟩
  · by_cases hhead : head = ""
    · subst hhead
      have hchild : child ⟨"", []⟩ name = ⟨name, []⟩ := eq_of_parts_eq hparts
      simp [hchild, components, isAbsolute, h.ne_empty, h.ne_dot, hstep, hempty]
    · rw [if_neg (by simpa [parts] using hhead)] at hparts
      have hchild : child ⟨head, []⟩ name = ⟨head, [] ++ [name]⟩ := eq_of_parts_eq hparts
      rw [hchild, components_concat, hstep, if_neg hhead]
      simp [components, isAbsolute]
  · have hform : (⟨head, front ++ [last]⟩ : Path).parts = (head :: front) ++ [last] := rfl
    rw [hform, List.getLast?_concat, List.dropLast_concat] at hparts
    by_cases hlast : last = ""
    · -- the slash at the end takes no step
      rw [if_pos (congrArg some hlast)] at hparts
      have hchild : child ⟨head, front ++ [last]⟩ name = ⟨head, front ++ [name]⟩ :=
        eq_of_parts_eq hparts
      rw [hchild, components_concat, components_concat, hstep, hlast, hempty]
      simp only [List.append_assoc, Option.toList_none, List.nil_append]
    · rw [if_neg fun h => hlast (Option.some.inj h)] at hparts
      have hchild : child ⟨head, front ++ [last]⟩ name = ⟨head, front ++ [last] ++ [name]⟩ :=
        eq_of_parts_eq hparts
      rw [hchild, components_concat, components_concat, hstep, List.filterMap_append]
      simp only [List.append_assoc]
      rfl

/-- The path along names takes one step for each of them. -/
theorem components_foldl_child (p : Path) {names : List String} (h : ∀ n ∈ names, IsName n) :
    (names.foldl child p).components = p.components ++ names.map Component.name := by
  induction names generalizing p with
  | nil => exact (List.append_nil _).symm
  | cons name names ih =>
    obtain ⟨hname, hnames⟩ := List.forall_mem_cons.mp h
    rw [List.foldl_cons, ih _ hnames, components_child p hname, List.append_assoc]
    rfl

end Path

theorem Files.tidy_of_entry {files : Files} (h : files.root.Tidy) {p : Path} {entries : Directory}
    (hp : files.entry p = .ok (.folder entries)) : entries.Tidy := by
  obtain ⟨place, -, hp⟩ := exists_of_bind_eq_ok hp
  split at hp
  · next entry hentry =>
    cases hp
    unfold entryAt? at hentry
    -- a removed place has no entries at all
    split at hentry
    · cases hentry
      trivial
    · exact h.of_find? hentry
  · cases hp

namespace Run

/-! ### What paths name -/

variable {files : Files} {config : Config}

/-- The sources that a path names: itself if it is a file, and otherwise those below it. -/
def named (files : Files) (config : Config) (p : Path) : List Path :=
  if files.isFile p then [p] else (filesBelow files p).filter config.isSource

theorem sourcesAt_eq {p : Path} (h : files.has p) (config : Config) :
    sourcesAt files config p = .ok (named files config p) := by
  unfold sourcesAt named
  split
  · rfl
  · next hfile =>
    -- a path that names something but no file names a directory
    refine if_pos ?_
    unfold Files.has at h
    unfold Files.isFile at hfile
    unfold Files.isDirectory
    cases hentry : files.entry p with
    | error e =>
      rw [hentry] at h
      cases h
    | ok entry =>
      cases entry with
      | file text? =>
        rw [hentry] at hfile
        exact absurd rfl hfile
      | folder entries => rfl

/-- **One path names no source twice.** -/
theorem distinct_named (h : files.root.Tidy) (config : Config) (p : Path) :
    Distinct (named files config p) := by
  unfold named
  split
  · exact List.pairwise_singleton _ p
  · refine List.Pairwise.filter _ ?_
    unfold filesBelow
    split
    · next entries hentries =>
      have htidy := Files.tidy_of_entry h hentries
      refine List.Pairwise.filter _ (List.pairwise_map.mpr ?_)
      -- two paths below one directory take the same steps only by the same names
      refine htidy.nodup_visibleFiles.imp_of_mem fun hs ht hne hsame => hne ?_
      rw [Path.same_iff, Path.components_foldl_child p (htidy.isName_of_mem hs),
        Path.components_foldl_child p (htidy.isName_of_mem ht)] at hsame
      have hmap := List.append_cancel_left hsame
      exact List.map_injective_iff.mpr (fun _ _ h => Path.Component.name.inj h) hmap
    · exact .nil

/-- All that the paths name is listed, without equal neighbours. -/
theorem sources_eq {paths : List Path} (h : ∀ p ∈ paths, files.has p) (config : Config) :
    sources files config paths = .ok (dropRepeats (paths.flatMap (named files config))) := by
  -- each path is there, so none of them fails
  have hlists : paths.mapM (sourcesAt files config) = .ok (paths.map (named files config)) := by
    induction paths with
    | nil => rfl
    | cons p paths ih =>
      obtain ⟨hp, hpaths⟩ := List.forall_mem_cons.mp h
      rw [List.mapM_cons, sourcesAt_eq hp, ih hpaths]
      rfl
  rw [sources, hlists, List.flatMap_def]
  rfl

/-- Each source in a list is checked by itself, however often it is listed. -/
theorem reports_checkFiles (files : Files) (options : CheckOptions) (cache : Cache)
    {l : List Path} (h : (checkFiles files options false cache l).failure? = none) :
    List.Forall₂ (fun s r => files.read s = .ok r.1 ∧
        r.2.report = .ofFindings (Source.check (.ofString s.text r.1) options)) l
      (checkFiles files options false cache l).reports := by
  -- for any remembered reports, since none of them is used
  induction l generalizing cache with
  | nil => exact .nil
  | cons s l ih =>
    rw [checkFiles] at h ⊢
    unfold readSource at h ⊢
    cases hread : files.read s with
    | error cause =>
      rw [hread] at h
      cases h
    | ok text =>
      rw [hread] at h
      exact .cons ⟨hread, rfl⟩ (ih _ h)

/-- **A source is listed twice only if it is named again after another one.** The paths that are
there name sources, each path none of them twice. All of these are listed, in order and no two
neighbours alike, and no source is listed twice exactly if no path names a source again that was
named before another source. Each source is checked as often as it is listed. -/
theorem sources_distinct_iff (hfiles : files.root.Tidy) (config : Config) {paths : List Path}
    (hpaths : ∀ p ∈ paths, files.has p) :
    ∃ l, sources files config paths = .ok l ∧
      (∀ p ∈ paths, Distinct (named files config p)) ∧
      l.Sublist (paths.flatMap (named files config)) ∧
      (∀ s ∈ paths.flatMap (named files config), ∃ t ∈ l, t.same s) ∧
      l.IsChain (fun s t => ¬ s.same t) ∧
      (Distinct l ↔ NeverReturns (paths.flatMap (named files config))) ∧
      ∀ options cache, (checkFiles files options false cache l).failure? = none →
        List.Forall₂ (fun s r => files.read s = .ok r.1 ∧
            r.2.report = .ofFindings (Source.check (.ofString s.text r.1) options)) l
          (checkFiles files options false cache l).reports :=
  ⟨_, sources_eq hpaths config, fun p _ => distinct_named hfiles config p, dropRepeats_sublist _,
    fun _ hs => exists_same_of_mem hs, isChain_dropRepeats _, distinct_dropRepeats_iff _,
    fun options cache => reports_checkFiles files options cache⟩

/-- Two sources in one directory. -/
def nested : Files :=
  let entries : Directory := .file "x.pmxc" (some "enum B \x7b T \x7d\n") <|
    .file "y.pmxc" (some "") .empty
  ⟨.folder "d" entries .empty, .ofNames []⟩

/-- A source that is named by itself just before its directory is listed once. -/
theorem nested_listed_once :
    nested.root.Tidy ∧ (∀ p ∈ [⟨"d", ["x.pmxc"]⟩, ⟨"d", []⟩], nested.has p) ∧
      ∃ l, sources nested .default [⟨"d", ["x.pmxc"]⟩, ⟨"d", []⟩] = .ok l ∧ Distinct l := by
  have htidy : nested.root.Tidy := by decide +kernel
  have hpaths : ∀ p ∈ [⟨"d", ["x.pmxc"]⟩, ⟨"d", []⟩], nested.has p := by decide +kernel
  obtain ⟨l, hl, -, -, -, -, hdistinct, -⟩ := sources_distinct_iff htidy .default hpaths
  refine ⟨htidy, hpaths, l, hl, hdistinct.mpr fun s t u hsub hsame => ?_⟩
  have hnamed : [⟨"d", ["x.pmxc"]⟩, ⟨"d", []⟩].flatMap (named nested .default) =
      [⟨"d", ["x.pmxc"]⟩, ⟨"d", ["x.pmxc"]⟩, ⟨"d", ["y.pmxc"]⟩] := by
    decide +kernel
  rw [hnamed] at hsub
  cases hsub.eq_of_length rfl
  exact absurd hsame (by decide +kernel)

/-- Two sources side by side, one of them with an error. -/
def sideBySide : Files :=
  let second : Directory := .file "b.pmxc" (some "enum B \x7b T \x7d\n") .empty
  ⟨.file "a.pmxc" (some "match Nope \x7b\x7d\n") second, .ofNames []⟩

/-- A source that is named again after another one is checked again, and its error is counted
twice. -/
theorem named_again_checked_again :
    let paths : List Path := [⟨"a.pmxc", []⟩, ⟨"b.pmxc", []⟩, ⟨"a.pmxc", []⟩]
    let finding := "error[E1002]: Unknown identifier `Nope`\n  --> a.pmxc:1:7\n" ++
      "   |\n  1 | match Nope \x7b\x7d\n   |       ^^^^\n\n"
    sideBySide.root.Tidy ∧ (sources sideBySide .default paths).toOption = some paths ∧
      (check sideBySide paths false true ⟨false, false⟩).printed.err =
        finding ++ finding ++ "\nChecked 3 file(s), found 2 error(s)\n" := by
  decide +kernel

end Run

end MatchCheck
