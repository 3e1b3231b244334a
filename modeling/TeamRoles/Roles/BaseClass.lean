import TeamRoles.Generics.Subtyping
import TeamRoles.Lookup.TypeSpec
import TeamRoles.Roles.Tsuper

/-!
The base class of a role: the class whose objects play the role. It is declared or inherited, from
the superclass first and then from the tsuper roles; while it is being resolved a role shows none.
-/

namespace TeamRoles.Resolve

def inheritedBaseClass (b : BindingId) : Resolve (Option Ty) := do
  unless ((← get).binding b).isRole do return none
  let superclass ← superclassOf b
  let e ← get
  let superRole := superclass.filter fun c => (e.binding c).isRole
  match ← superRole.toList.findSomeM? fun c => ask (.baseClass c) with
  | some base => return some base
  | none => (← tsuperRoles b).findSomeM? fun role => ask (.baseClass role)

def checkDeclaredBase (b : BindingId) (base : Ty) (unit : UnitId) : Resolve (Option Ty) := do
  let e ← get
  let role := e.binding b
  let report (p : ProblemId) (arguments : List String) := reportInUnit unit p role.span arguments
  unless role.isRole do
    report .playedByInNonRole [role.name]
    return none
  if e.isProblemType base then return some base
  match Env.bindingOf? base with
  | none => return some base
  | some target =>
    let name := (e.binding target).name
    let isCycle ← if (e.enclosingChain b).contains target then pure true else reaches target b
    if isCycle then
      report .baseclassCircularity [role.name, name]
      return none
    let e ← get
    if (e.binding target).isRole && e.teamOf? target == e.teamOf? b then
      report .baseclassIsEnclosingRole [role.name, name]
      return none
    unless e.isVisibleFrom target unit (some b) do
      report .decapsulation [name, role.name]
    match ← inheritedBaseClass b with
    | none => return some base
    | some inherited =>
      unless (← get).isProblemType inherited do
        unless ← ask (.isSubtype base inherited) do
          report .incompatibleBaseclassRefinement
            [role.name, name, (← get).typeName inherited]
      return some base

def baseClass (b : BindingId) : Resolve (Option Ty) := do
  let x ← known b
  match x.baseClass with
  | .resolved base => return base
  | .inProgress => return none
  | .unresolved =>
    updateBinding b ({ · with baseClass := .inProgress })
    let base ← match x.origin with
      | .source decl unit => match decl.playedBy with
        | some spec => do
          let site := { Site.header (← get) b unit with span := decl.span, baseContext := true }
          checkDeclaredBase b (← typeOfSpec site spec) unit
        | none => inheritedBaseClass b
      | .binary d => match d.extension.attributes?.bind (·.baseClass) with
        | some name =>
          if x.isRole then do
            let base ← findTypeOrProblem name
            pure (some ((← get).bareType base))
          else pure none
        | none => pure none
      | .problem _ => pure none
    updateBinding b ({ · with baseClass := .resolved base })
    return base

end TeamRoles.Resolve
