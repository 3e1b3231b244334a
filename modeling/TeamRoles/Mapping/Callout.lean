import TeamRoles.Mapping.Select
import TeamRoles.Roles.Lifting

/-!
Callouts: a role method is passed on to a method or a field of the base class.
-/

namespace TeamRoles.Resolve

/-- Role arguments must lower to the base parameters, every one of which must be supplied; the base
result must lift to the role. -/
def checkCalloutSignature (decl : CalloutDecl) (unit : UnitId) (roleMethod baseMethod : MethodId) :
    Resolve Unit := do
  let role ← sourceViewSignature roleMethod
  let e ← get
  let base := (e.method baseMethod).declared
  let report (p : ProblemId) (detail : String) := reportInUnit unit p decl.span
    [e.methodName roleMethod, e.methodName baseMethod, detail]
  role.params.zipIdx.forM fun (param, position) => do
    let fits ← match base.params[mappedPosition decl.paramMappings position]? with
      | some target => canLower param target
      | none => pure !decl.paramMappings.isEmpty
    unless fits do report .calloutParameterMismatch (position + 1).repr
  let supplied := (List.range role.params.length).map (mappedPosition decl.paramMappings)
  match (List.range base.params.length).find? (!supplied.contains ·) with
  | some missing => report .calloutParameterMismatch (missing + 1).repr
  | none => pure ()
  if role.ret != .primitive .void then
    let fits ← if base.ret = .primitive .void then pure false else canLift base.ret role.ret
    unless fits do report .calloutReturnMismatch ((← get).typeName role.ret)

/-- A getter takes nothing and a setter takes the value. -/
def fitsField (kind : CalloutKind) (role : MethodType) (field : Ty) : Resolve Bool :=
  match kind, role.params with
  | .get, [] => if role.ret = .primitive .void then return true else canLift field role.ret
  | .set, [value] => canLower value field
  | _, _ => return false

def resolveFieldCallout (role base : BindingId) (unit : UnitId) (decl : CalloutDecl)
    (roleMethod : Option MethodId) : Resolve (Option FieldId) := do
  let report (p : ProblemId) (arguments : List String) := reportInUnit unit p decl.span arguments
  unless decl.paramMappings.isEmpty do
    report .parameterMappingOnFieldAccess [decl.roleMethod.name]
  match ← findField base decl.base.name with
  | none =>
    report .unresolvedCalloutField [decl.base.name, ((← get).binding base).name]
    return none
  | some f =>
    let type ← ask (.fieldType f)
    let e ← get
    let field := e.field f
    unless e.isMemberVisible field.modifiers field.declaring unit do
      report .calloutDecapsulation [field.name, (e.binding role).name]
    if decl.kind = .set && field.isFinal then report .calloutSetterToFinalField [field.name]
    roleMethod.forM fun m => do
      let role ← sourceViewSignature m
      unless ← fitsField decl.kind role type do
        let e ← get
        report .calloutToFieldTypeMismatch [e.methodName m, field.name, e.typeName type]
    return some f

def resolveMethodCallout (role base : BindingId) (unit : UnitId) (decl : CalloutDecl)
    (roleMethod : Option MethodId) : Resolve (Option MethodId) := do
  let site := { Site.body role unit decl.span with baseContext := true }
  match ← selectMethod base decl.base site .calloutBase with
  | none => return none
  | some b =>
    let e ← get
    unless e.isMemberVisible (e.method b).modifiers (e.method b).declaring unit do
      reportInUnit unit .calloutDecapsulation decl.span [e.methodName b, (e.binding role).name]
    roleMethod.forM fun m => checkCalloutSignature decl unit m b
    return some b

/-- Is there a body that a callout would take the place of? -/
def isImplemented (m : Method) : Bool := !m.modifiers.contains .abstract && !m.isShortCallout

def resolveCallout (role base : BindingId) (unit : UnitId) (decl : CalloutDecl) (index : Nat) :
    Resolve Mapping := do
  let site := Site.body role unit decl.span
  let roleMethod ← selectMethod role decl.roleMethod site .calloutRole
  let e ← get
  roleMethod.forM fun m => do
    if isImplemented (e.method m) && !decl.isOverride then
      reportInUnit unit .calloutOverridesWithoutFlag decl.span [e.methodName m]
  let mapping : Mapping := {
    role, kind := .callout decl.kind, roleMethod, paramMap := decl.paramMappings
    isOverride := decl.isOverride, index, span := decl.span }
  match decl.kind with
  | .method =>
    let found ← resolveMethodCallout role base unit decl roleMethod
    return { mapping with baseMethods := found.toList }
  | .get | .set =>
    return { mapping with baseField := ← resolveFieldCallout role base unit decl roleMethod }

end TeamRoles.Resolve
