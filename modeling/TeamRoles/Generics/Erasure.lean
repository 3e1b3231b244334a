import TeamRoles.Env.Resolve

/-!
Erasure: what remains of a type when arguments, variables and anchors are taken away. A variable or a
capture stands for its first upper bound, and a variable that leads back to itself for the root type.
-/

namespace TeamRoles

inductive ErasedType where
  | primitive (b : BaseType)
  | null
  | cls (b : BindingId)
  /-- The root of the hierarchy, whether or not it has been loaded. -/
  | root
  | array (component : ErasedType)
  deriving DecidableEq

namespace Ty

/-- Erasure, given what variables and captures erase to. -/
def eraseWith (var : TypeVarId → ErasedType) (capture : CaptureId → ErasedType) : Ty → ErasedType
  | .primitive b => .primitive b
  | .null => .null
  | .declared b => .cls b
  | .parameterized generic _ _ => .cls generic
  | .raw generic _ => .cls generic
  | .variable v => var v
  | .wildcard .extends (some bound) => eraseWith var capture bound
  | .wildcard _ _ => .root
  | .captured c => capture c
  | .array component => .array (eraseWith var capture component)
  | .anchored role _ => eraseWith var capture role

end Ty

namespace Env

/-- Erasure with at most `fuel` bounds taken on the way; `seen` are the variables met before. -/
def eraseFrom (e : Env) (fuel : Nat) (seen : List TypeVarId) (t : Ty) : ErasedType :=
  match fuel with
  | 0 => .root
  | fuel + 1 => t.eraseWith
      (fun v => match (e.typeVar v).bounds.head? with
        | some bound => if seen.contains v then .root else e.eraseFrom fuel (v :: seen) bound
        | none => .root)
      (fun c => e.eraseFrom fuel seen (e.capture c).upper)

/-- A variable is unfolded once on the way to its erasure, and a capture rests on older ones. -/
def erase (e : Env) (t : Ty) : ErasedType := e.eraseFrom (e.typeVars.size + e.captures.size + 1) [] t

/-- Erasure for comparing types: at most `steps` layers are looked through, and the root is the root
even where it is named. -/
def erasedKey (e : Env) (steps : Nat) (t : Ty) : ErasedType :=
  match steps, t with
  | 0, _ => .root
  | _ + 1, .primitive b => .primitive b
  | _ + 1, .null => .null
  | _ + 1, .declared b => if e.isObject b then .root else .cls b
  | _ + 1, .parameterized generic _ _ => .cls generic
  | _ + 1, .raw generic _ => .cls generic
  | steps + 1, .variable v => match (e.typeVar v).bounds.head? with
    | some bound => e.erasedKey steps bound
    | none => .root
  | steps + 1, .wildcard .extends (some bound) => e.erasedKey steps bound
  | _ + 1, .wildcard _ _ => .root
  | steps + 1, .captured c => e.erasedKey steps (e.capture c).upper
  | steps + 1, .array component => .array (e.erasedKey steps component)
  | steps + 1, .anchored role _ => e.erasedKey steps role

/-- How many layers of a type count when erasures are compared. -/
def erasureDepth : Nat := 33

def sameErasure (e : Env) (a b : Ty) : Bool :=
  a == b || e.erasedKey erasureDepth a == e.erasedKey erasureDepth b

def sameErasures (e : Env) (as bs : List Ty) : Bool :=
  as.length == bs.length && (as.zip bs).all fun (a, b) => e.sameErasure a b

/-- Methods that are the same up to erasure, whatever their names. -/
def sameParameters (e : Env) (a b : MethodId) : Bool :=
  e.sameErasures (e.method a).declared.params (e.method b).declared.params

end Env

namespace Resolve

def ofErased : ErasedType → Resolve Ty
  | .primitive b => return .primitive b
  | .null => return .null
  | .cls b => return .declared b
  | .root => objectType
  | .array component => return .array (← ofErased component)

def erasure (t : Ty) : Resolve Ty := do ofErased ((← get).erase t)

end Resolve

end TeamRoles
