import TeamRoles.Generics.Subtyping

/-!
Lifting and lowering: a base object may be used as one of its roles, and a role as its base.
-/

namespace TeamRoles.Resolve

def roleBase (t : Ty) : Resolve (Option Ty) := do
  let e ← get
  match Env.bindingOf? t with
  | some b => if (e.binding b).isRole then baseClassOf t else return none
  | none => return none

def canLift (source target : Ty) : Resolve Bool := do
  if ← isCompatible source target then return true
  match source, target with
  | .array x, .array y => canLift x y
  | _, _ => match ← roleBase target with
    | some base => isCompatible source base
    | none => return false

def canLower (source target : Ty) : Resolve Bool := do
  if ← isCompatible source target then return true
  match source, target with
  | .array x, .array y => canLower x y
  | _, _ => match ← roleBase source with
    | some base => isCompatible base target
    | none => return false

end TeamRoles.Resolve
