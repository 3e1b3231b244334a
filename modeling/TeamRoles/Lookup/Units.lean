import TeamRoles.Lookup.Load

/-!
Source units and the types they declare. Building a unit makes a binding for every declaration that
is not a repeated one; nothing else is resolved yet.
-/

namespace TeamRoles.Resolve

mutual

/-- A binding for a declaration and for those inside it. -/
def declareType (unit : UnitId) (enclosing : Option BindingId) (qualified package : String) :
    TypeDecl → Resolve BindingId
  | decl@⟨_, _, _, _, _, _, _, _, _, memberTypes, _, _, _, _⟩ => do
    let b ← addBinding {
      name := qualified, package, modifiers := decl.modifierBits, origin := .source decl unit
      enclosing, span := decl.span }
    modify fun e => { e with missing := e.missing.filter (· != qualified) }
    bindName qualified b
    attachModels b
    declareMembers unit b qualified package [] memberTypes
    return b

/-- Of several member types of a name only the first is declared. -/
def declareMembers (unit : UnitId) (outer : BindingId) (qualified package : String)
    (seen : List String) : List TypeDecl → Resolve Unit
  | [] => return
  | decl :: rest => do
    let inner := qualified ++ "$" ++ decl.name
    if seen.contains decl.name then
      reportInUnit unit .duplicateTypes decl.span [inner]
      declareMembers unit outer qualified package seen rest
    else
      discard <| declareType unit (some outer) inner package decl
      declareMembers unit outer qualified package (decl.name :: seen) rest

end

def isDeclared (qualified : String) : Resolve Bool := do
  let e ← get
  return ((e.lookup? qualified).map fun b => (e.binding b).isSource).getD false

def buildRegularUnit (unit : UnitId) (u : UnitDecl) : Resolve (List BindingId) :=
  u.types.filterMapM fun decl => do
    if decl.modifierBits.isPublic && decl.name != u.fileStem then
      reportInUnit unit .publicClassMustMatchFileName decl.span [decl.name, u.fileName]
    let qualified := Name.qualify u.package decl.name
    if ← isDeclared qualified then
      reportInUnit unit .duplicateTypes decl.span [qualified]
      return none
    else return some (← declareType unit none qualified u.package decl)

def buildRoles (unit : UnitId) (u : UnitDecl) (team : BindingId) : Resolve (List BindingId) :=
  u.types.filterMapM fun decl => do
    let t := (← get).binding team
    let qualified := t.name ++ "$" ++ decl.name
    let inline := (t.decl?.map fun d => d.memberTypes.any (·.name == decl.name)).getD false
    if inline || (← isDeclared qualified) then
      reportInUnit unit .duplicateTypes decl.span [qualified]
      return none
    else return some (← declareType unit (some team) qualified t.package decl)

/-- A role file adds its types to a team that is declared elsewhere. -/
def buildRoleFile (unit : UnitId) (u : UnitDecl) (teamName : String) :
    Resolve (List BindingId) := do
  let found ← ask (.findType teamName)
  let e ← get
  match found.filter fun b => (e.binding b).isTeam with
  | none =>
    reportInUnit unit .roleFileTeamNotFound {} [teamName, u.fileName]
    return []
  | some team =>
    unless u.types.any (·.name == u.fileStem) do
      reportInUnit unit .roleFileMustDeclareRole {} [u.fileName, u.fileStem]
    let roles ← buildRoles unit u team
    updateBinding team fun x =>
      { x with team := x.team.map fun m =>
          { roleFiles := m.roleFiles ++ [unit], roleFileRoles := m.roleFileRoles ++ roles } }
    return roles

def buildUnit (u : UnitDecl) : Resolve UnitId := do
  let unit : UnitId := ⟨(← get).units.size⟩
  modify fun e => { e with units := e.units.push { decl := u } }
  let types ← match u.teamPackage with
    | some team => buildRoleFile unit u team
    | none => buildRegularUnit unit u
  let e ← get
  let hasTeam := u.teamPackage.isSome || types.any fun t => (e.binding t).isTeam
  updateUnit unit fun x => { x with types, hasTeam }
  return unit

def addUnit (u : UnitDecl) : Resolve UnitId := do
  let unit ← buildUnit u
  modify fun e => { e with added := e.added ++ [unit] }
  return unit

/-- Regular units come before role files, so that the teams of the latter are there. -/
def addUnits (units : List UnitDecl) : Resolve (List UnitId) :=
  let (roleFiles, regular) := units.partition (·.teamPackage.isSome)
  (regular ++ roleFiles).mapM addUnit

/-- A type whose name is also that of a package is reported, unless it is a team and the package holds
nothing but its role files. -/
def checkPackageCollisions : Resolve Unit := do
  let e ← get
  let topLevel := (e.units.toList.filter (!·.isRoleFile)).flatMap (·.types)
  (topLevel.mergeSort fun a b => a.index ≤ b.index).forM fun b => do
    let x := e.binding b
    let inside := e.units.toList.filter fun u => Env.inPackage x.name u.decl.effectivePackage
    let compiled := e.provider.packageExists x.name
    let onlyRoleFiles := x.isTeam && !compiled &&
      inside.all fun u => u.decl.teamPackage == some x.name
    unless (inside.isEmpty && !compiled) || onlyRoleFiles do
      reportFor b .typeCollidesWithPackage x.span [x.name]

end TeamRoles.Resolve
