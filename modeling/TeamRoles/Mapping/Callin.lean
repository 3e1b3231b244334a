import TeamRoles.Mapping.Select
import TeamRoles.Roles.Lifting

/-!
Callins: a role method runs before, after or in place of methods of the base class.
-/

namespace TeamRoles.Resolve

/-- A replace callin needs a callin method, the others must not have one. -/
def callinKindProblem? (kind : CallinKind) (isCallin : Bool) : Option ProblemId :=
  match kind, isCallin with
  | .replace, false => some .replaceNeedsCallinMethod
  | .before, true | .after, true => some .callinMethodBoundNonReplace
  | _, _ => none

/-- Base arguments must lift to the role parameters; a replaced result must lower to the base. -/
def checkCallinSignature (decl : CallinDecl) (unit : UnitId) (roleMethod baseMethod : MethodId) :
    Resolve Unit := do
  let role ← sourceViewSignature roleMethod
  let e ← get
  let base := (e.method baseMethod).declared
  let report (p : ProblemId) (detail : String) := reportInUnit unit p decl.span
    [e.methodName roleMethod, e.methodName baseMethod, detail]
  role.params.zipIdx.forM fun (param, position) => do
    let fits ← match base.params[mappedPosition decl.paramMappings position]? with
      | some value => canLift value param
      | none => pure false
    unless fits do report .callinParameterMismatch (position + 1).repr
  if decl.kind = .replace && base.ret != .primitive .void then
    let fits ← if role.ret = .primitive .void then pure false else canLower role.ret base.ret
    unless fits do report .callinReturnMismatch ((← get).typeName base.ret)

/-- The surrogate of a replacing method stands for the base methods it is bound to. -/
def bindSurrogate (surrogate : MethodId) (bases : List MethodId) : Resolve Unit :=
  updateMethod surrogate fun s =>
    { s with
      boundBaseMethods := bases.foldl
        (fun list b => if list.contains b then list else list ++ [b]) s.boundBaseMethods }

def resolveCallin (role base : BindingId) (unit : UnitId) (decl : CallinDecl) (index : Nat) :
    Resolve Mapping := do
  let site := Site.body role unit decl.span
  let roleMethod ← selectMethod role decl.roleMethod site .callinRole
  let e ← get
  roleMethod.forM fun m =>
    match callinKindProblem? decl.kind (e.method m).isCallin with
    | some p => reportInUnit unit p decl.span [e.methodName m]
    | none => pure ()
  let found ← decl.baseMethods.filterMapM fun spec =>
    selectMethod base spec { site with baseContext := true } .callinBase
  let baseMethods := found.foldl (fun list b => if list.contains b then list else list ++ [b]) []
  let mapping : Mapping := {
    role, kind := .callin decl.kind, label := decl.label, roleMethod, baseMethods
    paramMap := decl.paramMappings, index, span := decl.span }
  match roleMethod with
  | none => return mapping
  | some m =>
    baseMethods.forM (checkCallinSignature decl unit m)
    let e ← get
    if decl.kind = .replace && (e.method m).isCallin then
      let surrogate := (e.method m).surrogate
      surrogate.forM fun s => bindSurrogate s baseMethods
      return { mapping with surrogate }
    else return mapping

end TeamRoles.Resolve
