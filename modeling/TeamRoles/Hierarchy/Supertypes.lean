import TeamRoles.Members.TypeVariables

/-!
Superclass and interfaces of a type. An edge that would close a cycle is reported and replaced; while
the supertypes of a type are being resolved it shows none.
-/

namespace TeamRoles.Resolve

def defaultSuperclass (b : BindingId) : Resolve (Option Ty) := do
  let e ← get
  let x := e.binding b
  if e.isObject b || x.isInterface || e.isConfined b then return none
  else if x.isTeam && x.name != e.options.wellKnown.team then return some (← wellKnownType (·.team))
  else return some (← objectType)

def declaredSupertypes (b : BindingId) (decl : TypeDecl) (unit : UnitId) : Resolve Supertypes := do
  let e ← get
  let site := Site.header e b unit
  let written := if (e.binding b).isInterface then none else decl.superclass
  let superclass ← match written with
    | some spec => some <$> typeOfSpec site spec
    | none => defaultSuperclass b
  let interfaces ← typesOfSpecs site decl.interfaces
  return { superclass, interfaces }

def bareTypeNamed (name : String) : Resolve Ty := do
  let b ← findTypeOrProblem name
  return (← get).bareType b

/-- The names in a descriptor, where its signature does not say more. -/
def namedSupertypes (d : Descriptor) : Resolve Supertypes := do
  let superclass ← match d.superclass with
    | some name => some <$> bareTypeNamed name
    | none => pure none
  let interfaces ← d.interfaces.mapM bareTypeNamed
  return { superclass, interfaces }

def compiledSupertypes (b : BindingId) (d : Descriptor) : Resolve Supertypes := do
  match d.signature.map Signature.parseClass with
  | none => namedSupertypes d
  | some (.error cause) =>
    reportFor b .malformedSignature {} [d.name, cause.message]
    namedSupertypes d
  | some (.ok c) =>
    let scope : SignatureScope := { owner := b }
    let superclass ← if d.superclass.isSome then some <$> typeOfClass scope c.superclass
      else pure none
    let interfaces ← c.interfaces.mapM (typeOfClass scope)
    return { superclass, interfaces }

inductive SupertypeEdge where
  | superclass | interface
  deriving DecidableEq

/-- A class whose superclass cannot be used extends the root instead. -/
def replacementEdge (b : BindingId) (edge : SupertypeEdge) : Resolve (Option Ty) := do
  if edge = .interface || (← get).isObject b then return none
  else return some (← objectType)

def markProblems (b : BindingId) : Resolve Unit :=
  updateBinding b ({ · with hierarchyHasProblems := true })

def wrongKind : SupertypeEdge → ProblemId
  | .superclass => .superclassMustBeClass
  | .interface => .superInterfaceMustBeInterface

def checkDeclaredEdge (b : BindingId) (candidate : Ty) (target : BindingId) (edge : SupertypeEdge) :
    Resolve (Option Ty) := do
  let e ← get
  let x := e.binding b
  let above := e.binding target
  let shown := [x.name, above.name]
  match edge with
  | .superclass =>
    if above.isInterface && !x.isInterface then
      reportFor b (wrongKind edge) x.span shown
      replacementEdge b edge
    else
      if above.modifiers.isFinal then reportFor b .classExtendsFinalClass x.span shown
      return some candidate
  | .interface =>
    if above.isInterface then return some candidate
    else
      reportFor b (wrongKind edge) x.span shown
      return none

/-- The edge that is kept for a supertype as it was written. -/
def checkEdge (b : BindingId) (edge : SupertypeEdge) (candidate : Ty) : Resolve (Option Ty) := do
  let e ← get
  let x := e.binding b
  match Env.bindingOf? candidate with
  | none =>
    if x.isSource then reportFor b (wrongKind edge) x.span [x.name, e.typeName candidate]
    replacementEdge b edge
  | some target =>
    if (e.binding target).isProblem then
      markProblems b
      return some candidate
    let isCycle ← if target == b then pure true else reaches target b
    let above := (← get).binding target
    if isCycle then
      reportFor b .hierarchyCircularity x.span [x.name, above.name]
      replacementEdge b edge
    else
      if above.hierarchyHasProblems then markProblems b
      if x.isSource then checkDeclaredEdge b candidate target edge else return some candidate

def keepInterface (b : BindingId) (kept : List Ty) (candidate : Ty) : Resolve (List Ty) := do
  match ← checkEdge b .interface candidate with
  | some t => return if kept.contains t then kept else kept ++ [t]
  | none => return kept

def checkedSupertypes (b : BindingId) : Resolve Supertypes := do
  let written ← match ((← get).binding b).origin with
    | .source decl unit => declaredSupertypes b decl unit
    | .binary d => compiledSupertypes b d
    | .problem _ => pure {}
  let superclass ← match written.superclass with
    | some candidate => checkEdge b .superclass candidate
    | none => pure none
  let interfaces ← written.interfaces.foldlM (keepInterface b) []
  return { superclass, interfaces }

def supertypes (b : BindingId) : Resolve Supertypes := do
  match (← known b).supertypes with
  | .resolved s => return s
  | .inProgress => return {}
  | .unresolved =>
    updateBinding b ({ · with supertypes := .inProgress })
    let s ← checkedSupertypes b
    updateBinding b ({ · with supertypes := .resolved s })
    let x := (← get).binding b
    if x.hierarchyHasProblems && x.isSource then
      reportFor b .hierarchyHasProblems x.span [x.name]
    return s

end TeamRoles.Resolve
