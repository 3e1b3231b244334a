import TeamRoles.Env.Resolve

/-!
Types by their qualified names. A type that no unit declares is read from its descriptor when it is
first asked for; the type around it is read before it.
-/

namespace TeamRoles.Resolve

/-- A type inside a team is a role of the nearest one. -/
def attachModels (b : BindingId) : Resolve Unit := do
  let team := (← get).enclosingTeam? b
  updateBinding b fun x =>
    { x with
      team := if x.isTeam then some {} else none
      role := team.map fun team => { team }
      modifiers := if team.isSome then x.modifiers ∪ .role else x.modifiers }

/-- An extension that cannot be used is reported and left out. -/
def reportLimitation (b : BindingId) (d : Descriptor) : Resolve Unit :=
  match d.extension with
  | .unsupported version _ =>
    reportFor b .unsupportedExtensionVersion {} [d.name, version.toNat.repr]
  | .corrupt _ reason _ => reportFor b .corruptExtensionAttribute {} [d.name, reason]
  | _ => pure ()

def addDescriptor (d : Descriptor) : Resolve BindingId := do
  let enclosing ← match d.enclosing with
    | some outer => if outer == d.name then pure none else ask (.findType outer)
    | none => pure none
  match (← get).lookup? d.name with
  | some b => return b
  | none =>
    let isTeam := (d.extension.attributes?.map (·.isTeam)).getD false
    let b ← addBinding {
      name := d.name, package := Name.packageOf d.name, origin := .binary d, enclosing
      modifiers := if isTeam then d.modifiers ∪ .team else d.modifiers }
    bindName d.name b
    attachModels b
    reportLimitation b d
    return b

/-- The type of that name; an unreadable descriptor gives a stand-in. -/
def findType (name : String) : Resolve (Option BindingId) := do
  let e ← get
  match e.lookup? name with
  | some b => return some b
  | none =>
    if e.missing.contains name then return none
    match e.provider.find name with
    | .ok (some d) =>
      let b ← addDescriptor d
      if ((← get).lookup? name).isNone then bindName name b
      return some b
    | .ok none =>
      modify fun e => { e with missing := name :: e.missing }
      return none
    | .error cause =>
      let b ← problemBinding name .corrupt
      bindName name b
      reportFor b .corruptDescriptor {} [name, cause.message]
      return some b

def findProper (name : String) : Resolve (Option BindingId) := do
  let found ← ask (.findType name)
  let e ← get
  return found.filter fun b => !(e.binding b).isProblem

end TeamRoles.Resolve
