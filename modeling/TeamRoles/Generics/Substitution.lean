import TeamRoles.Generics.Erasure

/-!
Substitution of type variables. An instantiation inside another one substitutes the variables of both,
the inner ones first; a raw type erases its variables.
-/

namespace TeamRoles

namespace Ty

mutual

def subst (σ : TypeVarId → Ty) : Ty → Ty
  | .primitive b => .primitive b
  | .null => .null
  | .declared b => .declared b
  | .parameterized generic args enclosing =>
    .parameterized generic (substArgs σ args) (substOption σ enclosing)
  | .raw generic enclosing => .raw generic (substOption σ enclosing)
  | .variable v => σ v
  | .wildcard kind bound => .wildcard kind (substOption σ bound)
  | .captured c => .captured c
  | .array component => .array (subst σ component)
  | .anchored role path => .anchored (subst σ role) path

def substArgs (σ : TypeVarId → Ty) : List Ty → List Ty
  | [] => []
  | t :: rest => subst σ t :: substArgs σ rest

def substOption (σ : TypeVarId → Ty) : Option Ty → Option Ty
  | none => none
  | some t => some (subst σ t)

end

mutual

def vars : Ty → List TypeVarId
  | .parameterized _ args enclosing => varsOfArgs args ++ varsOfOption enclosing
  | .raw _ enclosing => varsOfOption enclosing
  | .variable v => [v]
  | .wildcard _ bound => varsOfOption bound
  | .array component => vars component
  | .anchored role _ => vars role
  | _ => []

def varsOfArgs : List Ty → List TypeVarId
  | [] => []
  | t :: rest => vars t ++ varsOfArgs rest

def varsOfOption : Option Ty → List TypeVarId
  | none => []
  | some t => vars t

end

end Ty

namespace ErasedType

def hasRoot : ErasedType → Bool
  | .root => true
  | .array component => component.hasRoot
  | _ => false

def toTy (root : Ty) : ErasedType → Ty
  | .primitive b => .primitive b
  | .null => .null
  | .cls b => .declared b
  | .root => root
  | .array component => .array (component.toTy root)

end ErasedType

/-- The variables of one generic type, and their arguments. -/
structure SubstLayer where
  vars : List TypeVarId
  args : List Ty := []
  isRaw : Bool := false
  deriving Inhabited

inductive VarImage where
  | arg (t : Ty)
  | erased

/-- A layer for an instantiation and for each one around it, the innermost first. -/
structure Substitution where
  layers : List SubstLayer := []
  deriving Inhabited

namespace Substitution

def ofArgs (vars : List TypeVarId) (args : List Ty) : Substitution := ⟨[{ vars, args }]⟩

def isEmpty (s : Substitution) : Bool := s.layers.isEmpty

def isRaw (s : Substitution) : Bool := (s.layers.head?.map (·.isRaw)).getD false

/-- The first layer that has the variable decides; a variable without argument is kept. -/
def image? (s : Substitution) (v : TypeVarId) : Option VarImage := do
  let layer ← s.layers.find? (·.vars.contains v)
  if layer.isRaw then some .erased else (layer.args[layer.vars.idxOf v]?).map .arg

/-- The type that stands for a variable; `root` is the root of the hierarchy. -/
def image (s : Substitution) (e : Env) (root : Ty) (v : TypeVarId) : Ty :=
  match s.image? v with
  | some (.arg t) => t
  | some .erased => (e.erase (.variable v)).toTy root
  | none => .variable v

/-- Does substitution into a type bring in the root of the hierarchy? -/
def needsRoot (s : Substitution) (e : Env) (t : Ty) : Bool :=
  t.vars.any fun v => match s.image? v with
    | some .erased => (e.erase (.variable v)).hasRoot
    | _ => false

end Substitution

namespace Resolve

def substitute (s : Substitution) (t : Ty) : Resolve Ty := do
  let e ← get
  let root ← if s.needsRoot e t then objectType else pure Ty.null
  return t.subst (s.image e root)

mutual

/-- The substitution that turns members of a generic type into those of an instantiation. -/
def substitutionFor : Ty → Resolve Substitution
  | .parameterized generic args enclosing => do
    let vars ← ask (.typeVariables generic)
    let outer ← substitutionForOption enclosing
    return ⟨{ vars, args } :: outer.layers⟩
  | .raw generic enclosing => do
    let vars ← ask (.typeVariables generic)
    let outer ← substitutionForOption enclosing
    return ⟨{ vars, isRaw := true } :: outer.layers⟩
  | .anchored role _ => substitutionFor role
  | _ => return {}

def substitutionForOption : Option Ty → Resolve Substitution
  | none => return {}
  | some t => substitutionFor t

end

end Resolve

end TeamRoles
