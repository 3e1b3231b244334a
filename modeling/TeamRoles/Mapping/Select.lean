import TeamRoles.Hierarchy.Search
import TeamRoles.Lookup.TypeSpec

/-!
The methods that mappings name.
-/

namespace TeamRoles

/-- Which problems are reported when a method specification does not pick one method. -/
structure Selection where
  missing : ProblemId
  ambiguous : ProblemId

namespace Selection

def callinRole : Selection := ⟨.unresolvedCallinRoleMethod, .ambiguousMethod⟩
def calloutRole : Selection := ⟨.undefinedMethod, .ambiguousMethod⟩
def callinBase : Selection := ⟨.unresolvedCallinBaseMethod, .ambiguousCallinBaseMethod⟩
def calloutBase : Selection := ⟨.unresolvedCalloutMethod, .ambiguousCalloutMethod⟩

end Selection

/-- The base position that a role parameter is mapped to. -/
def mappedPosition (mappings : List ParamMapping) (position : Nat) : Nat :=
  ((mappings.find? (·.role == position)).map (·.base)).getD position

def Env.isMemberVisible (e : Env) (modifiers : Modifiers) (declaring : BindingId) (unit : UnitId) :
    Bool :=
  if modifiers.isPublic then e.isVisibleFrom declaring unit none
  else if modifiers.isPrivate then false
  else (e.binding (e.outermost declaring)).package == (e.unit unit).decl.package

namespace Resolve

/-- The one method that fits a specification, generated ones aside. -/
def selectMethod (owner : BindingId) (spec : MethodSpec) (site : Site) (selection : Selection) :
    Resolve (Option MethodId) := do
  let all ← findMethods owner spec.name
  let e ← get
  let candidates := all.filter fun m => !(e.method m).isSynthetic
  let selected ← match spec.params with
    | none => pure candidates
    | some specs => do
      let wanted ← typesOfSpecs site specs
      let e ← get
      pure (candidates.filter fun m => e.sameErasures (e.method m).declared.params wanted)
  let shown := [spec.name, (e.binding owner).name]
  match selected with
  | [one] => return some one
  | [] =>
    reportInUnit site.unit selection.missing site.span shown
    return none
  | _ =>
    reportInUnit site.unit selection.ambiguous site.span shown
    return none

/-- The signature that a method shows in its source view; the view is left again. -/
def sourceViewSignature (m : MethodId) : Resolve MethodType := do
  let x := (← get).method m
  unless x.hasViews do return x.visible
  changeView Method.enterSourceView m
  let shown := ((← get).method m).visible
  changeView Method.exitSourceView m
  return shown

end Resolve

end TeamRoles
