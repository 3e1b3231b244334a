import TeamRoles.Members.TypeVariables
import TeamRoles.Roles.Copy
import TeamRoles.Roles.Surrogate

/-!
Methods of a type. A role has, besides those it declares, a method for every callout without one,
copies of the methods of its tsuper roles, and surrogates for its callin methods.
-/

namespace TeamRoles.Resolve

def declareMethod (b : BindingId) (unit : UnitId) (methods : List MethodId) (decl : MethodDecl) :
    Resolve (List MethodId) := do
  let vars ← addTypeVars (.method b) (decl.typeParams.map (·.name))
  let site := { Site.body b unit decl.span with methodVars := vars }
  setBounds vars (declaredBounds site decl.typeParams)
  let params ← typesOfSpecs site (decl.params.map (·.type))
  let ret ← match decl.returnType with
    | some spec => typeOfSpec site spec
    | none => pure (.primitive .void)
  let exceptions ← typesOfSpecs site decl.exceptions
  let written := Modifiers.ofKeywords decl.modifiers
  let isInterface := ((← get).binding b).isInterface
  let m ← newMethod {
    name := decl.name, modifiers := if isInterface then written ∪ .public else written
    declaring := b, typeVariables := vars, declared := ⟨params, ret⟩, exceptions
    origin := .source decl, span := decl.span }
  let e ← get
  if methods.any fun other => (e.method other).name == decl.name && e.sameParameters other m then
    reportInUnit unit .duplicateMethod decl.span [(e.binding b).name, decl.name]
    return methods
  else return methods ++ [m]

/-- The parameters and the result that a callout gives to its role method. -/
def calloutSignature (role : BindingId) (callout : CalloutDecl) : Resolve (Option MethodType) := do
  match (← ask (.baseClass role)).bind Env.bindingOf? with
  | none => return none
  | some base => match callout.kind with
    | .method =>
      if ← methodsInProgress base then
        reportFor role .calloutSignatureCycle callout.span
          [callout.roleMethod.name, callout.base.name]
        return none
      match ← findMethods base callout.base.name with
      | [only] => return some ((← get).method only).declared
      | _ => return none
    | .get | .set => match ← findField base callout.base.name with
      | none => return none
      | some f =>
        let t ← ask (.fieldType f)
        return some (if callout.kind = .get then ⟨[], t⟩ else ⟨[t], .primitive .void⟩)

/-- What a callout does not say about its role method is taken from the base member. -/
def shortCalloutType (role : BindingId) (unit : UnitId) (callout : CalloutDecl) :
    Resolve (Option MethodType) := do
  let site := Site.body role unit callout.span
  let params ← match callout.roleMethod.params with
    | some specs => some <$> typesOfSpecs site specs
    | none => pure none
  let ret ← match callout.roleMethod.returnType with
    | some spec => some <$> typeOfSpec site spec
    | none => pure none
  match params, ret with
  | some params, some ret => return some ⟨params, ret⟩
  | params, ret => match ← calloutSignature role callout with
    | some base => return some ⟨params.getD base.params, ret.getD base.ret⟩
    | none => return none

/-- A callout whose role method is not declared declares it. -/
def addShortCallout (role : BindingId) (unit : UnitId) (methods : List MethodId)
    (callout : CalloutDecl) : Resolve (List MethodId) := do
  let e ← get
  let name := callout.roleMethod.name
  if methods.any fun m => (e.method m).name == name then return methods
  match ← shortCalloutType role unit callout with
  | none => return methods
  | some declared =>
    let m ← newMethod {
      name, modifiers := .public, declaring := role, declared, origin := .shortCallout
      span := callout.span }
    return methods ++ [m]

def declaredMethods (b : BindingId) (decl : TypeDecl) (unit : UnitId) : Resolve (List MethodId) := do
  let methods ← decl.methods.foldlM (declareMethod b unit) []
  if ((← get).binding b).isRole then
    decl.callouts.foldlM (addShortCallout b unit) methods
  else return methods

def compiledMethod (b : BindingId) (d : Descriptor) (m : Descriptor.Member) :
    Resolve (Option MethodId) := do
  unless (← get).keepsMember b m.name do return none
  match Signature.parseMethod m.signature with
  | .error cause =>
    reportFor b .malformedSignature {} [d.name ++ "." ++ m.name, cause.message]
    return none
  | .ok sig =>
    let vars ← addTypeVars (.method b) (sig.formals.map (·.name))
    let scope : SignatureScope := { owner := b, methodVars := vars }
    setBounds vars (signatureBounds scope sig.formals)
    let params ← sig.params.mapM (typeOfSig scope)
    let ret ← typeOfSig scope sig.ret
    let exceptions ← sig.throws.mapM (typeOfSig scope)
    return some (← newMethod {
      name := m.name, modifiers := m.modifiers, declaring := b, typeVariables := vars
      declared := ⟨params, ret⟩, exceptions, origin := .binary })

def methods (b : BindingId) : Resolve (List MethodId) := do
  let x ← known b
  match x.methods with
  | .resolved methods => return methods
  | .inProgress => reentrant b .methods
  | .unresolved =>
    updateBinding b ({ · with methods := .inProgress })
    let own ← match x.origin with
      | .source decl unit => declaredMethods b decl unit
      | .binary d => d.methods.filterMapM (compiledMethod b d)
      | .problem _ => pure []
    let copied ← if x.isRole && !x.isBinary then copyMethods b own else pure own
    let methods ← if x.isRole then attachSurrogates b copied else pure copied
    updateBinding b ({ · with methods := .resolved methods })
    return methods

end TeamRoles.Resolve
