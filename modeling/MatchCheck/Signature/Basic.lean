import MatchCheck.Source.Span

/-!
# Signatures

A signature lists the declared types, each with its constructors, in the order of declaration. Types
are referred to by name, and a constructor by the name of its type together with its own name, since
two types may declare constructors of one name.

A constructor keeps the name written for the type of its field. Whether that type is declared is
decided by looking it up (`Signature.type?`), so a field may name a type that is declared later. A
field of an undeclared type has been reported by then, and anything is accepted in it.
-/

namespace MatchCheck

/-- A declared constructor, with the name of its field's type if it carries a field. -/
structure CtorDef where
  name : String
  span : Span
  field : Option String
deriving DecidableEq, Repr

/-- A declared type and its constructors. -/
structure TypeDef where
  name : String
  span : Span
  ctors : List CtorDef
deriving DecidableEq, Repr

/-- A constructor by the name of its type and its own name. -/
structure CtorRef where
  owner : String
  name : String
deriving DecidableEq, Repr

/-- The declared types. -/
structure Signature where
  types : List TypeDef
deriving DecidableEq, Repr

/-- The number of arguments a constructor takes. -/
def CtorDef.arity (c : CtorDef) : Nat :=
  if c.field.isSome then 1 else 0

namespace TypeDef

/-- The constructor of a type with the given name. -/
def ctor? (ty : TypeDef) (name : String) : Option CtorDef :=
  ty.ctors.find? (·.name = name)

/-- How a constructor of a type is referred to. -/
def ref (ty : TypeDef) (c : CtorDef) : CtorRef :=
  ⟨ty.name, c.name⟩

end TypeDef

namespace Signature

/-- The type with the given name. -/
def type? (sig : Signature) (name : String) : Option TypeDef :=
  sig.types.find? (·.name = name)

/-- The constructor that a reference stands for. -/
def ctor? (sig : Signature) (c : CtorRef) : Option CtorDef :=
  (sig.type? c.owner).bind (·.ctor? c.name)

/-- The declared type of a constructor's field: nothing without a field, and nothing when the type
named for it is not declared. -/
def fieldType? (sig : Signature) (c : CtorDef) : Option TypeDef :=
  c.field.bind sig.type?

/-- Every constructor with the given name and its type, in the order of declaration. -/
def ctorsNamed (sig : Signature) (name : String) : List (TypeDef × CtorDef) :=
  sig.types.flatMap fun ty => (ty.ctors.filter (·.name = name)).map (ty, ·)

end Signature

end MatchCheck
