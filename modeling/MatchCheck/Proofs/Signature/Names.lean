import Mathlib.Data.List.Nodup
import MatchCheck.Signature.Declare

/-!
# Names in a signature are distinct

A signature refers to types and constructors by name alone, so everything that is
said about looking one up rests on names being distinct: no two types share a name,
and no two constructors of one type do. Constructors of different types may.

Every signature that a program declares has distinct names
(`Program.signature_distinct`), whatever the program repeats: a repeated declaration
is left out. Types and the constructors of a type go through the same filter,
`firstsBy`, and what it keeps is shown once.

From distinct names follows that a look-up by name finds an element exactly when the
element is there and has the name (`type?_eq_some_iff`, `ctor?_eq_some_iff`), and that
a reference stands for the constructor it was made from (`ctor?_ref`).
-/

namespace MatchCheck

/-! ### The first element of every key -/

section FirstsBy

variable {α : Type} (key : α → String)

/-- What comes first keeps its order. -/
theorem firstsBy_sublist (kept xs : List α) : (firstsBy key kept xs).Sublist xs := by
  -- for all that may have been kept before, since it grows along the list
  induction xs generalizing kept with
  | nil => exact List.Sublist.refl _
  | cons x xs ih =>
    unfold firstsBy
    split
    · exact (ih kept).cons x
    · exact (ih (kept ++ [x])).cons_cons x

/-- No key that was kept before comes again. -/
theorem key_ne_of_mem_firstsBy {kept xs : List α} {k y : α} (hk : k ∈ kept)
    (hy : y ∈ firstsBy key kept xs) : key k ≠ key y := by
  induction xs generalizing kept with
  | nil => exact absurd hy List.not_mem_nil
  | cons x xs ih =>
    unfold firstsBy at hy
    split at hy
    · exact ih hk hy
    · next hx =>
      -- `y` is the element kept here, or it comes later, when `k` is still among the kept
      rcases List.mem_cons.mp hy with rfl | hy
      · intro heq
        exact hx (List.any_eq_true.mpr ⟨k, hk, decide_eq_true heq⟩)
      · exact ih (List.mem_append_left _ hk) hy

/-- **What comes first has distinct keys.** -/
theorem nodup_map_firstsBy (kept xs : List α) : ((firstsBy key kept xs).map key).Nodup := by
  induction xs generalizing kept with
  | nil => exact List.nodup_nil
  | cons x xs ih =>
    unfold firstsBy
    split
    · exact ih kept
    · rw [List.map_cons, List.nodup_cons]
      -- what is kept later avoids the key of `x`, which is among the kept by then
      refine ⟨fun hmem => ?_, ih (kept ++ [x])⟩
      obtain ⟨y, hy, heq⟩ := List.mem_map.mp hmem
      have hx : x ∈ kept ++ [x] := List.mem_append_right _ (List.mem_singleton.mpr rfl)
      exact key_ne_of_mem_firstsBy key hx hy heq.symm

/-- A map that keeps the keys keeps what comes first. -/
theorem firstsBy_map {β : Type} {key' : β → String} {f : α → β} (h : ∀ x, key' (f x) = key x)
    (kept xs : List α) :
    firstsBy key' (kept.map f) (xs.map f) = (firstsBy key kept xs).map f := by
  induction xs generalizing kept with
  | nil => rfl
  | cons x xs ih =>
    have hkept := ih (kept ++ [x])
    rw [List.map_append] at hkept
    simp only [List.map_cons, firstsBy, List.any_map, Function.comp_def, h]
    -- what was kept before has the same keys, so that the same element is left out
    split
    · exact ih kept
    · exact congrArg _ hkept

/-- Under distinct keys, looking an element up by its key finds that element. -/
theorem find?_eq_some_iff_of_nodup {xs : List α} (h : (xs.map key).Nodup) {k : String}
    {x : α} : xs.find? (key · = k) = some x ↔ x ∈ xs ∧ key x = k := by
  refine ⟨fun hf => ⟨List.mem_of_find?_eq_some hf, by simpa using List.find?_some hf⟩, ?_⟩
  rintro ⟨hx, rfl⟩
  cases hf : xs.find? (key · = key x) with
  | none => exact absurd (List.find?_eq_none.mp hf x hx) (by simp)
  | some y =>
    -- an element of this key was found; that it is `x` itself is where distinct keys are used
    have hy : key y = key x := by simpa using List.find?_some hf
    rw [List.inj_on_of_nodup_map h (List.mem_of_find?_eq_some hf) hx hy]

end FirstsBy

/-! ### Distinct names -/

/-- Names tell the types of a signature apart, and the constructors inside each type. -/
structure Signature.Distinct (sig : Signature) : Prop where
  /-- No two types share a name. -/
  types : (sig.types.map (·.name)).Nodup
  /-- No two constructors of one type share a name. -/
  ctors : ∀ ty ∈ sig.types, (ty.ctors.map (·.name)).Nodup

/-- The constructors of a declared type have distinct names. -/
theorem EnumDecl.nodup_ctors_define (d : EnumDecl) :
    (d.define.ctors.map (·.name)).Nodup := by
  have hmap : d.define.ctors.map (·.name)
      = (firstsBy (·.name.name) [] d.ctors).map (·.name.name) := List.map_map
  rw [hmap]
  exact nodup_map_firstsBy _ _ _

/-- The constructors of a declared type are the definitions of constructors in its declaration. -/
theorem EnumDecl.exists_ctorDecl_of_mem_ctors {d : EnumDecl} {c : CtorDef}
    (h : c ∈ d.define.ctors) : ∃ cd ∈ d.ctors, cd.define = c := by
  obtain ⟨cd, hcd, rfl⟩ := List.mem_map.mp h
  exact ⟨cd, (firstsBy_sublist _ _ _).subset hcd, rfl⟩

/-- The types of a program's signature are the definitions of declarations in it. -/
theorem Program.exists_enumDecl_of_mem_types {p : Program} {ty : TypeDef}
    (h : ty ∈ p.signature.types) : ∃ d ∈ p.enumDecls, d.define = ty := by
  obtain ⟨d, hd, rfl⟩ := List.mem_map.mp h
  exact ⟨d, (firstsBy_sublist _ _ _).subset hd, rfl⟩

/-- **Declared names are distinct.** Repeated declarations never reach the signature. -/
theorem Program.signature_distinct (p : Program) : p.signature.Distinct where
  types := by
    have hmap : p.signature.types.map (·.name)
        = (firstsBy (·.name.name) [] p.enumDecls).map (·.name.name) := List.map_map
    rw [hmap]
    exact nodup_map_firstsBy _ _ _
  ctors := by
    intro ty hty
    obtain ⟨d, -, rfl⟩ := Program.exists_enumDecl_of_mem_types hty
    exact d.nodup_ctors_define

/-! ### Looking names up -/

namespace Signature

variable {sig : Signature} {ty : TypeDef} {c d : CtorDef} {name : String}

theorem mem_types_of_type? (h : sig.type? name = some ty) : ty ∈ sig.types :=
  List.mem_of_find?_eq_some h

theorem mem_ctors_of_ctor? (h : ty.ctor? name = some c) : c ∈ ty.ctors :=
  List.mem_of_find?_eq_some h

theorem name_of_ctor? (h : ty.ctor? name = some c) : c.name = name := by
  simpa using List.find?_some h

theorem mem_types_of_fieldType? (h : sig.fieldType? c = some ty) : ty ∈ sig.types := by
  obtain ⟨f, -, hf⟩ := Option.bind_eq_some_iff.mp h
  exact mem_types_of_type? hf

/-- A name finds the one type that has it. -/
theorem type?_eq_some_iff (h : sig.Distinct) :
    sig.type? name = some ty ↔ ty ∈ sig.types ∧ ty.name = name :=
  find?_eq_some_iff_of_nodup TypeDef.name h.types

/-- A name finds the one constructor of a type that has it. -/
theorem ctor?_eq_some_iff (h : sig.Distinct) (hty : ty ∈ sig.types) :
    ty.ctor? name = some c ↔ c ∈ ty.ctors ∧ c.name = name :=
  find?_eq_some_iff_of_nodup CtorDef.name (h.ctors ty hty)

/-- The name of a constructor stands for that constructor alone inside its type. -/
theorem eq_of_name_eq (h : sig.Distinct) (hty : ty ∈ sig.types) (hc : c ∈ ty.ctors)
    (hd : d ∈ ty.ctors) (heq : c.name = d.name) : c = d :=
  List.inj_on_of_nodup_map (h.ctors ty hty) hc hd heq

/-- Around a constructor stand only constructors of other names. -/
theorem exists_split_ctors (h : sig.Distinct) (hty : ty ∈ sig.types) (hc : c ∈ ty.ctors) :
    ∃ before after, ty.ctors = before ++ c :: after ∧
      (∀ d ∈ before, d.name ≠ c.name) ∧ ∀ d ∈ after, d.name ≠ c.name := by
  obtain ⟨before, after, heq⟩ := List.append_of_mem hc
  have hnodup := h.ctors ty hty
  -- moved to the front, the name of `c` is not among the names on either side
  rw [heq, List.map_append, List.map_cons, List.nodup_middle, List.nodup_cons] at hnodup
  refine ⟨before, after, heq, fun d hd hname => hnodup.1 ?_, fun d hd hname => hnodup.1 ?_⟩
  · rw [← hname]
    exact List.mem_append_left _ (List.mem_map_of_mem hd)
  · rw [← hname]
    exact List.mem_append_right _ (List.mem_map_of_mem hd)

/-- A reference stands for the constructor that it was made from. -/
theorem ctor?_ref (h : sig.Distinct) (hty : ty ∈ sig.types) (hc : c ∈ ty.ctors) :
    sig.ctor? (ty.ref c) = some c := by
  have htype : sig.type? ty.name = some ty := (type?_eq_some_iff h).mpr ⟨hty, rfl⟩
  have hctor : ty.ctor? c.name = some c := (ctor?_eq_some_iff h hty).mpr ⟨hc, rfl⟩
  change (sig.type? ty.name).bind (·.ctor? c.name) = some c
  rw [htype]
  exact hctor

/-- Looking a constructor up in all types finds the constructors of that name, with their types.
-/
theorem mem_ctorsNamed_iff : (ty, c) ∈ sig.ctorsNamed name ↔
    ty ∈ sig.types ∧ c ∈ ty.ctors ∧ c.name = name := by
  unfold ctorsNamed
  rw [List.mem_flatMap]
  refine ⟨?_, ?_⟩
  · rintro ⟨ty', hty, hmem⟩
    obtain ⟨c', hc, heq⟩ := List.mem_map.mp hmem
    obtain ⟨rfl, rfl⟩ := Prod.mk.inj heq
    rw [List.mem_filter] at hc
    exact ⟨hty, hc.1, by simpa using hc.2⟩
  · rintro ⟨hty, hc, hname⟩
    refine ⟨ty, hty, List.mem_map.mpr ⟨c, ?_, rfl⟩⟩
    exact List.mem_filter.mpr ⟨hc, by simpa using hname⟩

end Signature

end MatchCheck
