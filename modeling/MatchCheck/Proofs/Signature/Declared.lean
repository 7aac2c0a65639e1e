import Mathlib.Data.List.Flatten
import Mathlib.Data.List.Infix
import MatchCheck.Proofs.Diagnostic.Codes
import MatchCheck.Proofs.Diagnostic.Sorted
import MatchCheck.Proofs.Program.Extent

/-!
# What a program declares

Declarations are gone through from the front, and what is kept on the way decides what is a
repetition. What a program declares can be said without that: an element of a list is kept if no
element in front of it has its key (`firsts`), and otherwise it repeats the first element that has
it (`repeats`). The two agree because what was kept finds the same element for every key as all that
stands in front (`SameFinds`).

The signature of a program holds the first declaration of every type name, and of each the first
constructor of every name (`Program.Declares`). The findings about the declarations are one for each
repeated type name, one for each repeated constructor in a type that is kept, and one for each
written field whose type is declared nowhere (`Program.declErrors_perm`). They are about different
names, and no two names of a source begin at one offset, so that the findings come in the order of
their starts and in no other.
-/

namespace MatchCheck

/-! ### First elements and repeated ones -/

section Firsts

variable {α : Type} (key : α → String)

/-- The elements of a list, each with those in front of it. In front of the list stands `front`. -/
def fronted (front xs : List α) : List (List α × α) :=
  (xs.inits.map (front ++ ·)).zip xs

/-- The elements whose key no element in front of them has. -/
def firsts (front xs : List α) : List α :=
  ((fronted front xs).filter fun x => key x.2 ∉ x.1.map key).map (·.2)

/-- The elements whose key an element in front of them has, each behind the first that has it. -/
def repeats (front xs : List α) : List (α × α) :=
  (fronted front xs).filterMap fun x => (x.1.find? (key · = key x.2)).map (·, x.2)

variable {front kept xs : List α} {x : α}

/-- Step by step: an element belongs to what stands in front of the next. -/
theorem fronted_cons :
    fronted front (x :: xs) = (front, x) :: fronted (front ++ [x]) xs := by
  simp [fronted, Function.comp_def]

theorem find?_isSome_iff {k : String} :
    (front.find? (key · = k)).isSome ↔ k ∈ front.map key := by
  simp [List.find?_isSome]

theorem find?_eq_none_iff {k : String} : front.find? (key · = k) = none ↔ k ∉ front.map key := by
  rw [← find?_isSome_iff, Option.not_isSome_iff_eq_none]

/-- An element whose key was there before is no first one. -/
theorem firsts_cons_of_mem (h : key x ∈ front.map key) :
    firsts key front (x :: xs) = firsts key (front ++ [x]) xs := by
  rw [firsts, fronted_cons, List.filter_cons_of_neg (by simpa using h)]
  rfl

/-- An element of a new key is a first one. -/
theorem firsts_cons_of_notMem (h : key x ∉ front.map key) :
    firsts key front (x :: xs) = x :: firsts key (front ++ [x]) xs := by
  rw [firsts, fronted_cons, List.filter_cons_of_pos (by simpa using h)]
  rfl

/-- An element repeats the first one of its key, if there is one in front. -/
theorem repeats_cons :
    repeats key front (x :: xs) =
      ((front.find? (key · = key x)).map (·, x)).toList ++ repeats key (front ++ [x]) xs := by
  rw [repeats, fronted_cons, List.filterMap_cons]
  cases front.find? (key · = key x) <;> rfl

/-- First elements keep their order. -/
theorem firsts_sublist (front xs : List α) : (firsts key front xs).Sublist xs := by
  induction xs generalizing front with
  | nil => exact List.Sublist.refl _
  | cons x xs ih =>
    by_cases h : key x ∈ front.map key
    · rw [firsts_cons_of_mem key h]
      exact (ih _).cons x
    · rw [firsts_cons_of_notMem key h]
      exact (ih _).cons_cons x

theorem notMem_of_nodup (h : ((front ++ x :: xs).map key).Nodup) : key x ∉ front.map key := by
  rw [List.map_append, List.map_cons] at h
  exact fun hmem => (List.nodup_append.mp h).2.2 _ hmem _ (List.mem_cons_self ..) rfl

/-- Repeated elements keep their order. -/
theorem map_snd_repeats_sublist (front xs : List α) :
    ((repeats key front xs).map (·.2)).Sublist xs := by
  induction xs generalizing front with
  | nil => exact List.Sublist.refl _
  | cons x xs ih =>
    rw [repeats_cons, List.map_append]
    cases front.find? (key · = key x) with
    | none => exact (ih _).cons x
    | some y => exact (ih _).cons_cons x

section Nodup

variable (h : ((front ++ xs).map key).Nodup)

include h

/-- Elements of different keys are all first. -/
theorem firsts_of_nodup : firsts key front xs = xs := by
  induction xs generalizing front with
  | nil => rfl
  | cons x xs ih =>
    rw [firsts_cons_of_notMem key (notMem_of_nodup key h), ih (by rwa [List.append_assoc])]

/-- Elements of different keys repeat nothing. -/
theorem repeats_of_nodup : repeats key front xs = [] := by
  induction xs generalizing front with
  | nil => rfl
  | cons x xs ih =>
    rw [repeats_cons, (find?_eq_none_iff key).mpr (notMem_of_nodup key h),
      ih (by rwa [List.append_assoc])]
    rfl

end Nodup

/-- What was kept finds the same element for every key as all that stands in front. -/
def SameFinds (kept front : List α) : Prop :=
  ∀ k, kept.find? (key · = k) = front.find? (key · = k)

variable {key}

/-- An element that is kept is found in both. -/
theorem SameFinds.keep (h : SameFinds key kept front) (x : α) :
    SameFinds key (kept ++ [x]) (front ++ [x]) := by
  intro k
  rw [List.find?_append, List.find?_append, h k]

/-- An element whose key was there before need not be kept: the first one is found anyway. -/
theorem SameFinds.skip (h : SameFinds key kept front) {y : α}
    (hy : front.find? (key · = key x) = some y) : SameFinds key kept (front ++ [x]) := by
  intro k
  rw [List.find?_append, h k]
  by_cases hk : key x = k
  · rw [← hk, hy]
    rfl
  · rw [List.find?_singleton, if_neg (by simpa using hk), Option.or_none]

/-- Among what was kept is a key exactly if it stands in front. -/
theorem SameFinds.any_iff (h : SameFinds key kept front) :
    kept.any (key · = key x) = true ↔ key x ∈ front.map key := by
  rw [List.any_eq_true, ← List.find?_isSome, h (key x), find?_isSome_iff]

/-- Going through a list and keeping what has a new key keeps the first elements. -/
theorem firstsBy_eq (h : SameFinds key kept front) :
    firstsBy key kept xs = firsts key front xs := by
  -- with both what was kept and what stands in front, which find the same
  induction xs generalizing kept front with
  | nil => rfl
  | cons x xs ih =>
    rw [firstsBy]
    split
    · next hany =>
      have hmem := h.any_iff.mp hany
      obtain ⟨y, hy⟩ := Option.isSome_iff_exists.mp ((find?_isSome_iff key).mpr hmem)
      rw [firsts_cons_of_mem key hmem, ih (h.skip hy)]
    · next hany =>
      rw [firsts_cons_of_notMem key (fun hmem => hany (h.any_iff.mpr hmem)), ih (h.keep x)]

theorem SameFinds.refl (xs : List α) : SameFinds key xs xs :=
  fun _ => rfl

/-- Every key is that of an element in front or of a first element. -/
theorem mem_map_firsts_iff (front xs : List α) (k : String) :
    k ∈ front.map key ∨ k ∈ (firsts key front xs).map key ↔
      k ∈ front.map key ∨ k ∈ xs.map key := by
  induction xs generalizing front with
  | nil => rfl
  | cons x xs ih =>
    have hstep := ih (front ++ [x])
    rw [List.map_append, List.mem_append, List.map_singleton, List.mem_singleton] at hstep
    by_cases h : key x ∈ front.map key
    · -- the key is that of an element in front
      rw [firsts_cons_of_mem key h, List.map_cons, List.mem_cons]
      grind
    · rw [firsts_cons_of_notMem key h, List.map_cons, List.map_cons, List.mem_cons, List.mem_cons]
      grind

end Firsts

/-! ### The signature -/

/-- **The types of a program** are the first declarations of their names. -/
theorem Program.types_signature (p : Program) :
    p.signature.types = (firsts (·.name.name) [] p.enumDecls).map EnumDecl.define := by
  rw [signature, firstsBy_eq (.refl [])]

/-- A type name is in the signature as soon as it is declared anywhere. -/
theorem Program.isSome_type?_iff (p : Program) (name : String) :
    (p.signature.type? name).isSome ↔ name ∈ p.enumDecls.map (·.name.name) := by
  have hfirsts : name ∈ (firsts (·.name.name) [] p.enumDecls).map (·.name.name) ↔
      name ∈ p.enumDecls.map (·.name.name) := by
    simpa using mem_map_firsts_iff [] p.enumDecls name
  rw [← hfirsts, Signature.type?, List.find?_isSome, types_signature]
  simp [EnumDecl.define]

/-- **What the signature of a program is.** -/
structure Program.Declares (p : Program) (sig : Signature) : Prop where
  /-- The types are the first declarations of every type name, in the order in which they are
  written. The constructors of each are the first of every name in this declaration, in this order,
  with a field exactly where one is written. -/
  types : sig.types = (firsts (·.name.name) [] p.enumDecls).map fun d =>
    ⟨d.name.name, d.name.span, (firsts (·.name.name) [] d.ctors).map fun c =>
      ⟨c.name.name, c.name.span, c.field.map (·.name)⟩⟩
  /-- Looking a type up finds the type of that name. -/
  type? : ∀ name ty, sig.type? name = some ty ↔ ty ∈ sig.types ∧ ty.name = name
  /-- Looking a constructor up in a type finds the constructor of that name. -/
  ctor? : ∀ ty ∈ sig.types, ∀ name c, ty.ctor? name = some c ↔ c ∈ ty.ctors ∧ c.name = name
  /-- Looking a constructor up in all types finds all constructors of that name, each with the type
  that owns it, in the order in which they are declared. -/
  ctorsNamed : ∀ name, sig.ctorsNamed name =
    (sig.types.flatMap fun ty => ty.ctors.map (ty, ·)).filter (·.2.name = name)
  /-- A field is of the type of the written name, if a type of that name is declared anywhere in the
  program. Otherwise it is of no type, and the written name is all that is left of it. -/
  fieldType? : ∀ ty ∈ sig.types, ∀ c ∈ ty.ctors,
    (c.field = none → sig.fieldType? c = none) ∧
      ∀ name, c.field = some name →
        (∀ fieldTy, sig.fieldType? c = some fieldTy ↔ fieldTy ∈ sig.types ∧ fieldTy.name = name) ∧
          ((sig.fieldType? c).isSome ↔ name ∈ p.enumDecls.map (·.name.name))
  /-- References lead back to what they were made from. -/
  refs : ∀ ty ∈ sig.types,
    sig.type? ty.name = some ty ∧ ∀ c ∈ ty.ctors, sig.ctor? (ty.ref c) = some c

/-- **The signature of a program is what it declares.** -/
theorem Program.declares_signature (p : Program) : p.Declares p.signature where
  types := by
    rw [types_signature]
    refine List.map_congr_left fun d _ => ?_
    rw [EnumDecl.define, firstsBy_eq (.refl [])]
    rfl
  type? _ _ := Signature.type?_eq_some_iff p.signature_distinct
  ctor? _ hty _ _ := Signature.ctor?_eq_some_iff p.signature_distinct hty
  ctorsNamed name := by
    -- to look in each type is to look among all constructors
    rw [Signature.ctorsNamed, List.filter_flatMap]
    refine List.flatMap_congr fun ty _ => ?_
    rw [List.filter_map]
    rfl
  fieldType? ty _ c _ := by
    unfold Signature.fieldType?
    refine ⟨fun hnone => by rw [hnone]; rfl, fun name hsome => ?_⟩
    rw [hsome, Option.bind_some]
    exact ⟨fun _ => Signature.type?_eq_some_iff p.signature_distinct, p.isSome_type?_iff name⟩
  refs ty hty :=
    ⟨(Signature.type?_eq_some_iff p.signature_distinct).mpr ⟨hty, rfl⟩,
      fun _ hc => Signature.ctor?_ref p.signature_distinct hty hc⟩

/-! ### The findings -/

/-- Looking among the constructors that were kept finds the first of each name. -/
theorem CtorDecl.repeatsFrom_eq {kept front : List CtorDecl}
    (h : SameFinds (·.name.name) kept front) (cs : List CtorDecl) :
    repeatsFrom kept cs = repeats (·.name.name) front cs := by
  induction cs generalizing kept front with
  | nil => rfl
  | cons c cs ih =>
    rw [repeatsFrom, repeats_cons, h c.name.name]
    cases hfind : front.find? (·.name.name = c.name.name) with
    | none => exact ih (h.keep c)
    | some first =>
      -- what repeats a name is not kept, but nothing is found differently for that
      exact congrArg _ (ih (h.skip hfind))

/-- One error for each constructor that repeats a name in a declaration. -/
def EnumDecl.repeatedCtors (d : EnumDecl) : List DeclError :=
  (repeats (·.name.name) [] d.ctors).map fun c => .duplicateCtor c.2.name d.name.name c.1.name.span

namespace Program

variable (p : Program)

/-- One error for each declaration that repeats the name of a type. -/
def repeatedTypes : List DeclError :=
  (repeats (·.name.name) [] p.enumDecls).map fun d => .duplicateType d.2.name d.1.name.span

/-- One error for each constructor that repeats a name in a declaration that is kept. -/
def repeatedCtors : List DeclError :=
  (firsts (·.name.name) [] p.enumDecls).flatMap EnumDecl.repeatedCtors

/-- One error for each field of a type that is declared nowhere, over all constructors of all
declarations, also those that are left out. -/
def unknownFields : List DeclError :=
  p.enumDecls.flatMap fun d => d.ctors.flatMap fun c =>
    (c.field.toList.filter fun f => f.name ∉ p.enumDecls.map (·.name.name)).map .unknownType

end Program

theorem EnumDecl.repeatErrorsFrom_perm {kept front : List EnumDecl}
    (h : SameFinds (·.name.name) kept front) (ds : List EnumDecl) :
    (repeatErrorsFrom kept ds).Perm
      ((repeats (·.name.name) front ds).map (fun d => .duplicateType d.2.name d.1.name.span) ++
        (firsts (·.name.name) front ds).flatMap repeatedCtors) := by
  -- declaration by declaration. Errors of the two kinds come mixed, so they are only a permutation
  induction ds generalizing kept front with
  | nil => exact .nil
  | cons d ds ih =>
    rw [repeatErrorsFrom, repeats_cons, h d.name.name]
    cases hfind : front.find? (·.name.name = d.name.name) with
    | some first =>
      rw [firsts_cons_of_mem _ ((find?_isSome_iff _).mp (Option.isSome_of_eq_some hfind))]
      exact (ih (h.skip hfind)).cons _
    | none =>
      rw [firsts_cons_of_notMem _ ((find?_eq_none_iff _).mp hfind), List.flatMap_cons,
        CtorDecl.repeatsFrom_eq (.refl [])]
      -- the errors of this declaration come in front of the repeated types behind it
      refine ((ih (h.keep d)).append_left _).trans ?_
      exact List.perm_append_comm_assoc _ _ _

namespace Program

variable (p : Program)

/-- The fields of all constructors of all declarations are all that are written. -/
theorem unknownFields_eq :
    p.unknownFields =
      (p.writtenFields.filter fun f => f.name ∉ p.enumDecls.map (·.name.name)).map
        .unknownType := by
  rw [unknownFields, writtenFields, List.filter_flatMap, List.map_flatMap]
  refine List.flatMap_congr fun d _ => ?_
  rw [List.filterMap_eq_flatMap_toList, List.filter_flatMap, List.map_flatMap]

/-- **The errors of the declarations**, apart from their order. -/
theorem declErrors_perm :
    p.declErrors.Perm (p.repeatedTypes ++ p.repeatedCtors ++ p.unknownFields) := by
  have hunknown : (p.writtenFields.filter fun f => (p.signature.type? f.name).isNone).map
      DeclError.unknownType = p.unknownFields := by
    rw [unknownFields_eq]
    -- a field is unknown if no declaration has its name
    refine congrArg _ (List.filter_congr fun f _ => ?_)
    have hiff := p.isSome_type?_iff f.name
    cases hfind : p.signature.type? f.name <;> simp_all
  rw [declErrors, hunknown]
  exact (EnumDecl.repeatErrorsFrom_perm (.refl []) p.enumDecls).append_right _

/-- The names in declarations are those of types, of constructors and of fields. -/
theorem names_perm :
    (p.enumDecls.map (·.name) ++ (p.enumDecls.flatMap fun d => d.ctors.map (·.name)) ++
      p.writtenFields).Perm (p.enumDecls.flatMap EnumDecl.names) := by
  have hctors (d : EnumDecl) :
      (d.ctors.map (·.name) ++ d.ctors.filterMap (·.field)).Perm
        (d.ctors.flatMap CtorDecl.names) := by
    rw [List.filterMap_eq_flatMap_toList]
    exact List.map_append_flatMap_perm ..
  -- first within each declaration, then over all of them
  rw [List.append_assoc, writtenFields]
  refine ((List.flatMap_append_perm ..).append_left _).trans ?_
  refine ((List.Perm.flatMap_left _ fun d _ => hctors d).append_left _).trans ?_
  exact List.map_append_flatMap_perm ..

theorem code_repeatedTypes : ∀ e ∈ p.repeatedTypes, e.code = .duplicateType :=
  List.forall_mem_map.mpr fun _ _ => rfl

theorem code_repeatedCtors : ∀ e ∈ p.repeatedCtors, e.code = .duplicateConstructor := by
  intro e he
  obtain ⟨d, -, hd⟩ := List.mem_flatMap.mp he
  obtain ⟨c, -, rfl⟩ := List.mem_map.mp hd
  rfl

theorem code_unknownFields : ∀ e ∈ p.unknownFields, e.code = .unknownType := by
  rw [unknownFields_eq]
  exact List.forall_mem_map.mpr fun _ _ => rfl

/-- Repeated types are reported at names of types, in the order of these. -/
theorem name_repeatedTypes_sublist :
    (p.repeatedTypes.map DeclError.name).Sublist (p.enumDecls.map (·.name)) := by
  rw [repeatedTypes, List.map_map]
  have hsub := (map_snd_repeats_sublist (·.name.name) [] p.enumDecls).map EnumDecl.name
  rwa [List.map_map] at hsub

/-- Repeated constructors are reported at names of constructors, in the order of these. -/
theorem name_repeatedCtors_sublist :
    (p.repeatedCtors.map DeclError.name).Sublist
      (p.enumDecls.flatMap fun d => d.ctors.map (·.name)) := by
  rw [repeatedCtors, List.map_flatMap]
  refine ((firsts_sublist _ [] p.enumDecls).flatMap _).trans ?_
  -- in each declaration, repeated constructors keep their order
  refine List.Sublist.flatMap_right _ fun d _ => ?_
  rw [EnumDecl.repeatedCtors, List.map_map]
  have hsub := (map_snd_repeats_sublist (·.name.name) [] d.ctors).map CtorDecl.name
  rwa [List.map_map] at hsub

/-- Unknown types are reported at written fields, in the order of these. -/
theorem name_unknownFields_sublist :
    (p.unknownFields.map DeclError.name).Sublist p.writtenFields := by
  rw [unknownFields_eq, List.map_map]
  exact (List.map_id _).symm ▸ List.filter_sublist

variable {p}

section Ascending

variable (h : (p.enumDecls.flatMap EnumDecl.names).Pairwise
  fun i j => i.span.start.offset < j.span.start.offset)

include h

/-- Wrong declarations are reported at different offsets. -/
theorem nodup_starts_declErrors :
    ((p.declErrors.map DeclError.diagnostic).map (·.span.start.offset)).Nodup := by
  have hnames : ((p.enumDecls.flatMap EnumDecl.names).map (·.span.start.offset)).Nodup :=
    List.pairwise_map.mpr (h.imp Nat.ne_of_lt)
  -- errors of different kinds are reported at names of different kinds
  have hsub := (p.name_repeatedTypes_sublist.append p.name_repeatedCtors_sublist).append
    p.name_unknownFields_sublist
  rw [← List.map_append, ← List.map_append] at hsub
  have hstarts : (p.declErrors.map DeclError.diagnostic).map (·.span.start.offset) =
      (p.declErrors.map DeclError.name).map (·.span.start.offset) := by
    simp [DeclError.span_diagnostic]
  rw [hstarts, ((p.declErrors_perm.map _).map _).nodup_iff]
  exact (((p.names_perm.map _).nodup_iff).mpr hnames).sublist (hsub.map _)

/-- **The findings about declarations ascend**, and no two of them begin at one offset. -/
theorem ascending_declFindings : p.declFindings.Pairwise Diagnostic.StartsLT := by
  refine Diagnostic.pairwise_lt_of_nodup (Diagnostic.pairwise_sortByStart _) ?_
  rw [declFindings, ((Diagnostic.sortByStart_perm _).map _).nodup_iff]
  exact nodup_starts_declErrors h

/-- If the errors of one code are `es`, reported at names in their order, then the findings of this
code are those that report `es`, in this order. -/
theorem filter_declFindings {c : Code} {es : List DeclError}
    (hes : (p.repeatedTypes ++ p.repeatedCtors ++ p.unknownFields).filter
      (·.diagnostic.code = c.text) = es)
    (hsub : (es.map DeclError.name).Sublist (p.enumDecls.flatMap EnumDecl.names)) :
    p.declFindings.filter (·.code = c.text) = es.map DeclError.diagnostic := by
  have hperm : (p.declFindings.filter (·.code = c.text)).Perm (es.map DeclError.diagnostic) := by
    rw [← hes]
    refine ((Diagnostic.sortByStart_perm _).filter _).trans ?_
    rw [List.filter_map]
    exact (p.declErrors_perm.filter _).map _
  have hascending : (es.map DeclError.diagnostic).Pairwise Diagnostic.StartsLT := by
    refine List.pairwise_map.mpr ((List.pairwise_map.mp (h.sublist hsub)).imp fun {e f} hef => ?_)
    rw [Diagnostic.StartsLT, DeclError.span_diagnostic, DeclError.span_diagnostic]
    exact hef
  -- both lists are in order, and there is one order alone
  refine Diagnostic.eq_of_perm hperm ((Diagnostic.pairwise_sortByStart _).filter _)
    (hascending.imp Nat.le_of_lt) ?_
  exact List.pairwise_map.mpr (hascending.imp Nat.ne_of_lt)

end Ascending

/-- **What is reported about declarations.** -/
structure Reports (p : Program) (ds : List Diagnostic) : Prop where
  /-- The types reported as repeated are the repeated ones. -/
  types : ds.filter (·.code = Code.duplicateType.text) = p.repeatedTypes.map DeclError.diagnostic
  /-- The constructors reported as repeated are those that repeat a name in a type that is kept. -/
  ctors : ds.filter (·.code = Code.duplicateConstructor.text) =
    p.repeatedCtors.map DeclError.diagnostic
  /-- The fields reported as being of no type are those of a type that is declared nowhere. -/
  fields : ds.filter (·.code = Code.unknownType.text) = p.unknownFields.map DeclError.diagnostic
  /-- Nothing else is reported. -/
  codes : ∀ d ∈ ds, d.code = Code.duplicateType.text ∨ d.code = Code.duplicateConstructor.text ∨
    d.code = Code.unknownType.text
  /-- Each finding begins before the next. -/
  ascending : ds.Pairwise Diagnostic.StartsLT

/-- Errors of one code are found under this code and under no other. -/
theorem filter_code {es : List DeclError} {c : Code} (hes : ∀ e ∈ es, e.code = c) (c' : Code) :
    es.filter (·.diagnostic.code = c'.text) = if c = c' then es else [] := by
  -- of another code there is none, since codes have different texts
  split
  · next heq =>
    refine List.filter_eq_self.mpr fun e he => ?_
    rw [DeclError.code_diagnostic, hes e he, heq, decide_eq_true_eq]
  · next hne =>
    refine List.filter_eq_nil_iff.mpr fun e he => ?_
    rwa [DeclError.code_diagnostic, hes e he, decide_eq_true_eq, Code.text_inj]

/-- The errors of one code are those of one kind. -/
theorem filter_errors (p : Program) (c : Code) :
    (p.repeatedTypes ++ p.repeatedCtors ++ p.unknownFields).filter (·.diagnostic.code = c.text) =
      (if .duplicateType = c then p.repeatedTypes else []) ++
        (if .duplicateConstructor = c then p.repeatedCtors else []) ++
          if .unknownType = c then p.unknownFields else [] := by
  rw [List.filter_append, List.filter_append, filter_code p.code_repeatedTypes,
    filter_code p.code_repeatedCtors, filter_code p.code_unknownFields]

end Program

/-- **Declarations are reported as they should be**, once their names ascend. -/
theorem Program.reports_declFindings {p : Program}
    (h : (p.enumDecls.flatMap EnumDecl.names).Pairwise
      fun i j => i.span.start.offset < j.span.start.offset) : p.Reports p.declFindings where
  types := by
    -- sorting keeps the errors of one kind in order, as their names are a sublist of all names
    refine filter_declFindings h ?_ (p.name_repeatedTypes_sublist.trans ?_)
    · rw [filter_errors]
      simp
    · rw [List.map_eq_flatMap]
      exact List.Sublist.flatMap_right _ fun d _ => (List.nil_sublist _).cons_cons _
  ctors := by
    refine filter_declFindings h ?_ (p.name_repeatedCtors_sublist.trans ?_)
    · rw [filter_errors]
      simp
    · refine List.Sublist.flatMap_right _ fun d _ => List.Sublist.cons _ ?_
      rw [List.map_eq_flatMap]
      exact List.Sublist.flatMap_right _ fun c _ => (List.nil_sublist _).cons_cons _
  fields := by
    refine filter_declFindings h ?_ (p.name_unknownFields_sublist.trans ?_)
    · rw [filter_errors]
      simp
    · refine List.Sublist.flatMap_right _ fun d _ => List.Sublist.cons _ ?_
      rw [List.filterMap_eq_flatMap_toList]
      exact List.Sublist.flatMap_right _ fun c _ => (List.Sublist.refl _).cons _
  codes d hd := by
    obtain ⟨e, -, rfl⟩ := List.mem_map.mp ((Diagnostic.sortByStart_perm _).subset hd)
    rw [DeclError.code_diagnostic]
    cases e <;> simp [DeclError.code]
  ascending := ascending_declFindings h

/-- **What a source declares is what is written in it**, and what is wrong with its declarations is
reported, once each, in the order in which it is written. -/
theorem Source.declarations_exact (source : Source) :
    source.program.1.Declares source.program.1.signature ∧
      source.program.1.Reports source.program.1.declFindings :=
  ⟨source.program.1.declares_signature, Program.reports_declFindings source.ascending_names⟩

end MatchCheck
