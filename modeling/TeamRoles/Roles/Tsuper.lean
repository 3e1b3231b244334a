import TeamRoles.Hierarchy.Search

/-!
Tsuper roles: a role refines the roles of the same name in the super-teams of its team.
-/

namespace TeamRoles

def Env.teamOf? (e : Env) (b : BindingId) : Option BindingId := (e.binding b).role.map (·.team)

namespace Resolve

/-- The chain of superclasses of a team, as far as they are teams. -/
def superTeams {σ : Type} (start : List BindingId) (found : σ)
    (visit : σ → BindingId → Resolve σ) : Resolve σ :=
  walk .depthFirst (fun t => return (← superclassOf t).toList) start found fun found team => do
    if ((← get).binding team).isTeam then return .inner (← visit found team)
    else return .leaf found

def setTsuperRoles (role : BindingId) (slot : Slot (List BindingId)) : Resolve Unit :=
  updateBinding role fun x => { x with role := x.role.map ({ · with tsuperRoles := slot }) }

def roleNamed (team : BindingId) (simple : String) : Resolve (Option BindingId) := do
  let members ← memberTypes team
  let e ← get
  return members.find? fun m => (e.binding m).simpleName == simple

/-- The tsuper roles of a role, those of the nearest super-team first. -/
def tsuperRoles (role : BindingId) : Resolve (List BindingId) := do
  let x := (← get).binding role
  match x.role with
  | none => return []
  | some model => match model.tsuperRoles with
    | .resolved list => return list
    | .inProgress => reentrant role .tsuperRoles
    | .unresolved =>
      setTsuperRoles role .inProgress
      let above ← superclassOf model.team
      let list ← superTeams above.toList [] fun found team => do
        let members ← memberTypes team
        let e ← get
        let tsuper := members.find? fun m => (e.binding m).simpleName == x.simpleName && m != role
        return found ++ tsuper.toList
      setTsuperRoles role (.resolved list)
      return list

/-- The role that stands in a team for a role of another one. -/
def rebindRole (role team : BindingId) : Resolve BindingId := do
  let e ← get
  match e.teamOf? role with
  | none => return role
  | some own =>
    if own == team then return role
    else return (← roleNamed team (e.binding role).simpleName).getD role

/-- A type of a copied member, seen from the team it is copied to. -/
def rebindType (team : BindingId) : Ty → Resolve Ty
  | .declared b => return .declared (← rebindRole b team)
  | .array component => return .array (← rebindType team component)
  | .anchored role path => return .anchored (← rebindType team role) path
  | t => return t

end Resolve

end TeamRoles
