import TeamRoles.Generics.Subtyping
import TeamRoles.Members.Fields
import TeamRoles.Members.Method

/-!
Copy inheritance of methods: a role has copies of the methods of its tsuper roles that it does not
declare, with the roles of its own team in their signatures.
-/

namespace TeamRoles

namespace Env

def copyOriginFrom (e : Env) (fuel : Nat) (m : MethodId) : MethodId :=
  match fuel, (e.method m).copySource with
  | fuel + 1, some source => e.copyOriginFrom fuel source
  | _, _ => m

def copyOrigin (e : Env) (m : MethodId) : MethodId := e.copyOriginFrom (e.methods.size + 1) m

end Env

namespace Resolve

/-- A declared method stands in the place of an inherited one, whose return type it must keep. -/
def recordOverride (own inherited : MethodId) (inheritedRet : Ty) : Resolve Unit := do
  updateMethod own fun m =>
    if m.overriddenTsupers.contains inherited then m
    else { m with overriddenTsupers := m.overriddenTsupers ++ [inherited] }
  let e ← get
  let m := e.method own
  if m.isCallin != (e.method inherited).isCallin then
    reportFor m.declaring .callinOverridesRegular m.span [e.methodName own, e.methodName inherited]
  unless e.sameErasure m.declared.ret inheritedRet do
    unless ← ask (.isSubtype m.declared.ret inheritedRet) do
      let e ← get
      reportFor m.declaring .tsuperReturnMismatch m.span
        [e.methodName own, e.typeName m.declared.ret, e.typeName inheritedRet]

def copyMethod (role team : BindingId) (methods : List MethodId) (inherited : MethodId) :
    Resolve (List MethodId) := do
  let m := (← get).method inherited
  if Name.isSurrogate m.name || m.isConstructor then return methods
  let params ← m.declared.params.mapM (rebindType team)
  let ret ← rebindType team m.declared.ret
  let e ← get
  let existing := methods.find? fun own =>
    (e.method own).name == m.name && e.sameErasures (e.method own).declared.params params
  match existing with
  | some own =>
    unless (e.method own).isCopied do recordOverride own inherited ret
    return methods
  | none =>
    let copy ← newMethod {
      name := m.name, modifiers := m.modifiers, declaring := role
      typeVariables := m.typeVariables, declared := ⟨params, ret⟩, exceptions := m.exceptions
      origin := .copied, copySource := some inherited, span := m.span }
    return methods ++ [copy]

def copyMethods (role : BindingId) (methods : List MethodId) : Resolve (List MethodId) := do
  let team ← teamOf role
  (← tsuperRoles role).foldlM (fun methods tsuper => do
    (← ask (.methods tsuper)).foldlM (copyMethod role team) methods) methods

end Resolve

end TeamRoles
