import TeamRoles.Hierarchy.Search

/-!
Anchored types. The anchor of a role type is a path of final fields that leads to an instance of its
team; it is resolved when the type of the field is first asked for.
-/

namespace TeamRoles.Resolve

/-- A field of the type or of one around it. -/
def findFieldInScope (b : BindingId) (name : String) : Resolve (Option FieldId) := do
  ((← get).enclosingChain b).findSomeM? fun owner => findField owner name

/-- Follows the path of an anchor, which must not lead through the field itself. The answer is the
type of the last field and the fields on the way; a fault is reported. -/
def followPath (f : FieldId) (path : String) (reached : Option (Ty × List FieldId)) :
    List String → Resolve (Option (Ty × List FieldId))
  | [] => return reached
  | name :: rest => do
    let field := (← get).field f
    let found ← match reached with
      | none => findFieldInScope field.declaring name
      | some (t, _) => match Env.bindingOf? t with
        | some owner => findField owner name
        | none => pure none
    match found.filter (· != f) with
    | none =>
      reportFor field.declaring .unresolvedAnchor field.span [path, field.name]
      return none
    | some next =>
      let step := (← get).field next
      if step.isFinal then
        let t ← ask (.fieldType next)
        let before := (reached.map (·.2)).getD []
        followPath f path (some (t, before ++ [next])) rest
      else
        reportFor field.declaring .anchorNotFinal field.span [step.name, path]
        return none

def roleAtAnchor (f : FieldId) (path : String) (role : String) (t : Ty) (fields : List FieldId) :
    Resolve Ty := do
  let e ← get
  let field := e.field f
  match (Env.bindingOf? t).filter fun b => (e.binding b).isTeam with
  | none =>
    reportFor field.declaring .anchorNotATeam field.span [path, e.typeName t]
    problemType path .invalidAnchor
  | some team =>
    let found ← findMemberType team role
    let e ← get
    match found.filter fun b => (e.binding b).isRole with
    | some b => return .anchored (.declared b) fields
    | none =>
      reportFor field.declaring .roleNotInAnchorTeam field.span [role, (e.binding team).name]
      problemType role .invalidAnchor

def resolveAnchor (f : FieldId) (anchor : PendingAnchor) : Resolve Ty := do
  let path := ".".intercalate anchor.path
  match ← followPath f path none anchor.path with
  | none => problemType path .invalidAnchor
  | some (t, fields) =>
    if (← get).isProblemType t then problemType path .invalidAnchor
    else roleAtAnchor f path anchor.role t fields

/-- The type of a field; an anchor that depends on itself is reported. -/
def fieldType (f : FieldId) : Resolve Ty := do
  let e ← get
  let field := e.field f
  match field.pendingAnchor with
  | none => return field.type
  | some anchor =>
    if e.anchorsInProgress.contains f then
      reportFor field.declaring .anchorCycle field.span
        [(e.binding field.declaring).name, field.name]
      problemType (".".intercalate anchor.path) .invalidAnchor
    else
      modify fun e => { e with anchorsInProgress := f :: e.anchorsInProgress }
      let outcome ← attempt (resolveAnchor f anchor)
      modify fun e => { e with anchorsInProgress := e.anchorsInProgress.filter (· != f) }
      match outcome with
      | .error abort => throw abort
      | .ok type =>
        updateField f ({ · with type, pendingAnchor := none })
        return type

end TeamRoles.Resolve
