import TeamRoles.Mapping.Basic
import TeamRoles.Precedence.Graph
import TeamRoles.Roles.Tsuper

/-!
The order of the callins of a team at each base method. Precedence declarations order callins
directly, callins of one role that they leave open run in the order of their declaration, and two
callins of different roles that stay open are reported.
-/

namespace TeamRoles.Precedence

/-- A callin of a team, under the role that has or inherits it. -/
structure Entry where
  mapping : MappingId
  role : String
  label : Option String
  inherited : Bool
  deriving Inhabited

/-- Two callins in the order that a declaration gives them. -/
structure Edge where
  high : MappingId
  low : MappingId
  afterOnly : Bool
  span : Span
  deriving Inhabited

/-- A declaration, the role it stands in and whether it belongs to the team itself. -/
structure Declared where
  decl : PrecedenceDecl
  role : Option String := none
  own : Bool

def splitLastDot? (s : String) : Option (String × String) :=
  let behind := s.toList.reverse.takeWhile (· != '.')
  match s.toList.reverse.dropWhile (· != '.') with
  | [] => none
  | _ :: before => some (String.ofList before.reverse, String.ofList behind.reverse)

/-- The callins that an element of a declaration names: a role and a label, a label of the role
around it, any label, or a whole role. -/
def resolveElement (entries : List Entry) (scope : Option String) (element : String) :
    List MappingId :=
  let labelled (inRole : String → Bool) (label : String) :=
    (entries.filter fun e => inRole e.role && e.label == some label).map (·.mapping)
  match splitLastDot? element with
  | some (role, label) => labelled (· == role) label
  | none =>
    let candidates := [(scope.map fun r => labelled (· == r) element).getD [],
      labelled (fun _ => true) element, (entries.filter (·.role == element)).map (·.mapping)]
    (candidates.find? (!·.isEmpty)).getD []

/-- Every pair of a list is ordered, backwards in an `after` list. -/
def edgesOf (decl : PrecedenceDecl) (callins : List MappingId) : List Edge :=
  ((pairs callins).filter fun (a, b) => a != b).map fun (a, b) =>
    let (high, low) := if decl.after then (b, a) else (a, b)
    { high, low, afterOnly := decl.after, span := decl.span }

def applicable (edges : List Edge) (withAfter : Bool) : List Edge :=
  edges.filter fun edge => withAfter || !edge.afterOnly

/-- The callins of each join point in the order of their discovery. -/
def joinPoints (e : Env) (entries : List Entry) : List JoinPoint :=
  entries.foldl (fun points entry =>
    match (e.mapping entry.mapping).kind.callin? with
    | none => points
    | some kind => (e.mapping entry.mapping).baseMethods.foldl (add entry.mapping kind) points) []
where
  add (m : MappingId) (kind : CallinKind) (points : List JoinPoint) (base : MethodId) :
      List JoinPoint :=
    let isHere (p : JoinPoint) := p.baseMethod == base && p.kind == kind
    if points.any isHere then
      points.map fun p =>
        if isHere p && !p.order.contains m then { p with order := p.order ++ [m] } else p
    else points ++ [{ baseMethod := base, kind, order := [m] }]

def roleOf (entries : List Entry) (m : MappingId) : Option String :=
  (entries.find? (·.mapping == m)).map (·.role)

/-- The declared order of the callins at a join point, with the defaults inside each role. -/
def graphOf (entries : List Entry) (edges : List Edge) (members : List MappingId) :
    Graph MappingId :=
  let declared := edges.foldl (fun succ edge => succ.relate edge.high edge.low)
    (Successors.ofNodes members)
  (Graph.ofSuccessors declared).addDefaults
    (fun a b => roleOf entries a == roleOf entries b) members

def orderedPair (a b : MappingId) : MappingId × MappingId :=
  if a.index ≤ b.index then (a, b) else (b, a)

abbrev Reported := List (MappingId × MappingId)

end Precedence

namespace Resolve

open Precedence

def reportIncompatible (team : BindingId) (span : Span) (pair : MappingId × MappingId) :
    Resolve Unit := do
  let e ← get
  reportFor team .incompatiblePrecedence span [e.mappingName pair.1, e.mappingName pair.2]

/-- The callins of a role: its own, then those of its tsuper roles that it does not redefine. -/
def entriesOf (entries : List Entry) (role : BindingId) : Resolve (List Entry) := do
  let simple := ((← get).binding role).simpleName
  let own ← callins role
  let e ← get
  let ownEntries := own.map fun m => Entry.mk m simple (e.mapping m).label false
  let inherited ← tsuperRoles role
  inherited.foldlM (fun entries tsuper => do
    let found ← callins tsuper
    let e ← get
    return found.foldl (fun entries m =>
      let label := (e.mapping m).label
      let isRedefined := label.isSome && entries.any fun entry =>
        entry.role == simple && entry.label == label
      if isRedefined then entries else entries ++ [⟨m, simple, label, true⟩]) entries)
    (entries ++ ownEntries)

def precedenceEntries (team : BindingId) : Resolve (List Entry) := do
  let members ← memberTypes team
  let e ← get
  (members.filter fun m => (e.binding m).isRole).foldlM entriesOf []

def checkDuplicateLabels (entries : List Entry) : Resolve Unit := do
  let labelled := entries.filter fun entry => !entry.inherited && entry.label.isSome
  let e ← get
  discard <| labelled.foldlM (fun (seen : List (String × Option String)) entry => do
    if seen.contains (entry.role, entry.label) then
      let m := e.mapping entry.mapping
      reportFor m.role .duplicateCallinLabel m.span [entry.role ++ "." ++ entry.label.getD ""]
    return (entry.role, entry.label) :: seen) []

def declarationsIn (x : Binding) (own : Bool) : List Declared :=
  match x.origin with
  | .source decl _ =>
    decl.precedences.map ({ decl := ·, own }) ++
      decl.memberTypes.flatMap fun m =>
        m.precedences.map fun p => { decl := p, role := some m.name, own }
  | .binary d =>
    ((d.extension.attributes?.map (·.precedences)).getD []).map fun r =>
      { decl := { after := r.after, elements := r.labels }, own }
  | .problem _ => []

def precedenceDeclarations (team : BindingId) : Resolve (List Declared) :=
  superTeams [team] [] fun found t =>
    return found ++ declarationsIn ((← get).binding t) (t == team)

def declaredEdges (team : BindingId) (entries : List Entry) (declared : Declared) :
    Resolve (List Edge) := do
  let callins ← declared.decl.elements.mapM fun element => do
    let found := resolveElement entries declared.role element
    if found.isEmpty && declared.own then
      reportFor team .unknownPrecedenceElement declared.decl.span [element]
    return found
  return edgesOf declared.decl callins.flatten

def checkOppositeEdges (team : BindingId) (edges : List Edge) (reported : Reported) :
    Resolve Reported :=
  edges.foldlM (fun reported edge => do
    let pair := orderedPair edge.high edge.low
    let isOpposite := edges.any fun other => other.high == edge.low && other.low == edge.high
    if isOpposite && !reported.contains pair then
      reportIncompatible team edge.span pair
      return pair :: reported
    else return reported) reported

/-- A cycle is reported unless a contradiction among its members was. -/
def checkLeftover (team : BindingId) (left : List MappingId) (reported : Reported) :
    Resolve Reported := do
  match left.head?, left.getLast? with
  | some first, some last =>
    if left.any fun a => left.any fun b => reported.contains (orderedPair a b) then return reported
    let pair := orderedPair first last
    reportIncompatible team ((← get).mapping first).span pair
    return pair :: reported
  | _, _ => return reported

def orderJoinPoint (team : BindingId) (entries : List Entry) (edges : List Edge)
    (point : JoinPoint) (reported : Reported) : Resolve (JoinPoint × Reported) := do
  let graph := graphOf entries (applicable edges (point.kind == .after)) point.order
  let e ← get
  (graph.unordered point.order).forM fun (a, b) =>
    reportFor team .precedenceRequired (e.mapping b).span
      [e.methodName point.baseMethod, e.mappingName a, e.mappingName b]
  match sort? graph.succ point.order with
  | none => throw (.internal "a counter of a sort fell below zero")
  | some (sorted, left) =>
    let reported ← checkLeftover team left reported
    return ({ point with order := sorted ++ left }, reported)

/-- The callins at each join point in their order, and the pairs that are declared both ways, when the
declarations have been listed anew. -/
def orderRelisted (relist : List Declared → List Declared) (team : BindingId) :
    Resolve (List JoinPoint × Reported) := do
  let entries ← precedenceEntries team
  checkDuplicateLabels entries
  let declared ← precedenceDeclarations team
  let edges := (← (relist declared).mapM (declaredEdges team entries)).flatten
  let reported ← checkOppositeEdges team (applicable edges false) []
  let reported ← checkOppositeEdges team edges reported
  let points := joinPoints (← get) entries
  points.foldlM (fun (done, reported) point => do
    let (point, reported) ← orderJoinPoint team entries edges point reported
    return (done ++ [point], reported)) (([] : List JoinPoint), reported)

def orderCallins (team : BindingId) : Resolve (List JoinPoint × Reported) := orderRelisted id team

def computePrecedence (team : BindingId) : Resolve PrecedenceTable := do
  let (joinPoints, _) ← orderCallins team
  return { team, joinPoints }

/-- The callin order of a team; a type that is no team has none. -/
def precedence (team : BindingId) : Resolve PrecedenceTable := do
  let e ← get
  match e.precedence.lookup team with
  | some table => return table
  | none =>
    let table ← if (e.binding team).isTeam then computePrecedence team else pure { team }
    modify fun e => { e with precedence := (team, table) :: e.precedence }
    return table

end Resolve

end TeamRoles
