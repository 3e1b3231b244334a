import TeamRoles.Types.Basic

/-!
A table that gives every type it has seen a number. The primitive types and the type of `null` come
first.
-/

namespace TeamRoles

structure TypeId where
  index : Nat
  deriving DecidableEq, Inhabited

structure TypeTable where
  types : Array Ty := #[]
  deriving Inhabited

namespace TypeTable

def size (t : TypeTable) : Nat := t.types.size

def lookup? (t : TypeTable) (type : Ty) : Option TypeId := (t.types.idxOf? type).map TypeId.mk

def intern (t : TypeTable) (type : Ty) : TypeId × TypeTable :=
  match t.lookup? type with
  | some id => (id, t)
  | none => (⟨t.size⟩, ⟨t.types.push type⟩)

def get (t : TypeTable) (id : TypeId) : Ty := t.types[id.index]?.getD Ty.null

/-- The primitive types in the order of their numbers. -/
def primitives : List BaseType :=
  [.void, .boolean, .byte, .char, .short, .int, .long, .float, .double]

def new : TypeTable :=
  (primitives.map Ty.primitive ++ [Ty.null]).foldl (fun t type => (t.intern type).2) {}

def primitive (_ : TypeTable) (b : BaseType) : TypeId := ⟨primitives.idxOf b⟩

def null (_ : TypeTable) : TypeId := ⟨primitives.length⟩

end TypeTable

end TeamRoles
