import TeamRoles.Generics.Substitution
import TeamRoles.Hierarchy.Search
import TeamRoles.Members.Method

/-!
Members of types. Those of an instantiation are made from the members of the generic type, once.
-/

namespace TeamRoles.Resolve

def instanceMembers (t : Ty) : Resolve InstanceMembers :=
  return ((← get).instances.lookup t).getD {}

def updateInstance (t : Ty) (f : InstanceMembers → InstanceMembers) : Resolve Unit :=
  modify fun e =>
    { e with instances :=
        (t, f ((e.instances.lookup t).getD {})) :: e.instances.filter (·.1 != t) }

def instanceSupertypes (t : Ty) (generic : BindingId) : Resolve Supertypes := do
  match (← instanceMembers t).supertypes with
  | some s => return s
  | none =>
    let declared ← ask (.supertypes generic)
    let s ← substitutionFor t
    let superclass ← match declared.superclass with
      | some c => some <$> substitute s c
      | none => pure none
    let interfaces ← declared.interfaces.mapM (substitute s)
    let above : Supertypes := { superclass, interfaces }
    updateInstance t ({ · with supertypes := some above })
    return above

/-- A variable lies below its bounds, a capture below its upper bound. -/
def typeSupertypes : Ty → Resolve Supertypes
  | .declared b => ask (.supertypes b)
  | .parameterized generic args enclosing =>
    instanceSupertypes (.parameterized generic args enclosing) generic
  | .raw generic enclosing => instanceSupertypes (.raw generic enclosing) generic
  | .anchored role _ => typeSupertypes role
  | .captured c => return { superclass := some ((← get).capture c).upper }
  | .variable v => do
    match ((← get).typeVar v).bounds with
    | first :: rest => return { superclass := some first, interfaces := rest }
    | [] => return { superclass := some (← objectType) }
  | _ => return {}

def genericOf? : Ty → Option BindingId
  | .parameterized generic _ _ => some generic
  | .raw generic _ => some generic
  | .anchored role _ => genericOf? role
  | _ => none

def instanceField (s : Substitution) (generic : FieldId) : Resolve FieldId := do
  let declared ← ask (.fieldType generic)
  let type ← substitute s declared
  addField { (← get).field generic with
    type, pendingAnchor := none, origin := .parameterized generic }

def typeFields (t : Ty) : Resolve (List FieldId) := do
  match genericOf? t with
  | none => match Env.bindingOf? t with
    | some b => ask (.fields b)
    | none => return []
  | some generic =>
    let s ← substitutionFor t
    match (← instanceMembers t).fields with
    | some fields => return fields
    | none =>
      let fields ← (← ask (.fields generic)).mapM (instanceField s)
      updateInstance t ({ · with fields := some fields })
      return fields

def instanceMethod (s : Substitution) (generic : MethodId) : Resolve MethodId := do
  let m := (← get).method generic
  let params ← m.declared.params.mapM (substitute s)
  let ret ← substitute s m.declared.ret
  let exceptions ← m.exceptions.mapM (substitute s)
  newMethod {
    name := m.name, modifiers := m.modifiers, declaring := m.declaring
    typeVariables := m.typeVariables, declared := ⟨params, ret⟩, exceptions
    origin := .parameterized generic, span := m.span }

def typeMethods (t : Ty) : Resolve (List MethodId) := do
  match genericOf? t with
  | none => match Env.bindingOf? t with
    | some b => ask (.methods b)
    | none => return []
  | some generic =>
    let s ← substitutionFor t
    match (← instanceMembers t).methods with
    | some methods => return methods
    | none =>
      let methods ← (← ask (.methods generic)).mapM (instanceMethod s)
      updateInstance t ({ · with methods := some methods })
      return methods

/-- A member type that is not static belongs to the instantiation it is taken from. -/
def memberTypesWithin (b : BindingId) (enclosing : Option Ty) : Resolve (List Ty) := do
  let members ← memberTypes b
  let e ← get
  return members.map fun m =>
    e.instantiate m [] (if (e.binding m).modifiers.isStatic then none else enclosing)

def typeMemberTypes (t : Ty) : Resolve (List Ty) := do
  match t with
  | .parameterized generic _ _ => match (← instanceMembers t).memberTypes with
    | some members => return members
    | none =>
      let members ← memberTypesWithin generic (some t)
      updateInstance t ({ · with memberTypes := some members })
      return members
  | _ => match Env.bindingOf? t with
    | some b => memberTypesWithin b none
    | none => return []

/-- The base class of a role, seen from an instantiation of it. -/
def baseClassOf (t : Ty) : Resolve (Option Ty) := do
  match Env.bindingOf? t with
  | none => return none
  | some role => match ← ask (.baseClass role) with
    | none => return none
    | some base => return some (← substitute (← substitutionFor t) base)

end TeamRoles.Resolve
