import TeamRoles.BaseCall
import TeamRoles.Mapping.Callin
import TeamRoles.Mapping.Callout
import TeamRoles.Signature.Parser

/-!
The mappings of a role, callins before callouts, and the base calls of its callin methods.
-/

namespace TeamRoles.Resolve

def setMappings (role : BindingId) (slot : Slot (List MappingId)) : Resolve Unit :=
  modify fun e =>
    { e with roleMappings := (role, slot) :: e.roleMappings.filter (·.1 != role) }

/-- Nothing is mapped to a base class that is a problem type. -/
def declaredMappings (role : BindingId) (decl : TypeDecl) (unit : UnitId) :
    Resolve (List MappingId) := do
  if decl.callins.isEmpty && decl.callouts.isEmpty then return []
  let declared ← ask (.baseClass role)
  let e ← get
  if (declared.map e.isProblemType).getD false then return []
  match declared.bind Env.bindingOf? with
  | none =>
    reportInUnit unit .mappingInUnboundRole decl.span [(e.binding role).name]
    return []
  | some base =>
    let callins ← decl.callins.zipIdx.mapM fun (d, index) => do
      addMapping (← resolveCallin role base unit d index)
    let callouts ← decl.callouts.zipIdx.mapM fun (d, index) => do
      addMapping (← resolveCallout role base unit d index)
    return callins ++ callouts

/-- The method of a name with the number of parameters that a recorded signature has. -/
def recordedMethod (owner : BindingId) (name signature : String) : Resolve (Option MethodId) := do
  let candidates ← findMethods owner name
  let e ← get
  return match Signature.parseMethod signature with
    | .ok sig => candidates.find? fun m => (e.method m).declared.params.length == sig.params.length
    | .error _ => candidates.head?

def compiledCallin (role : BindingId) (base : Option BindingId) (record : Descriptor.CallinRecord)
    (index : Nat) : Resolve MappingId := do
  let roleMethod ← recordedMethod role record.roleMethod record.roleSignature
  let baseMethods ← match base with
    | some base => record.baseMethods.filterMapM fun m => recordedMethod base m.name m.signature
    | none => pure []
  let e ← get
  addMapping {
    role, kind := .callin record.kind, label := some record.label, roleMethod, baseMethods, index
    surrogate := if record.kind = .replace then roleMethod.bind fun m => (e.method m).surrogate
      else none }

def compiledCallout (role : BindingId) (base : Option BindingId)
    (record : Descriptor.CalloutRecord) (index : Nat) : Resolve MappingId := do
  let roleMethod ← recordedMethod role record.roleMethod record.roleSignature
  let mapping : Mapping := { role, kind := .callout record.kind, roleMethod, index }
  match base, record.kind with
  | none, _ => addMapping mapping
  | some base, .method =>
    let found ← recordedMethod base record.baseMember record.baseSignature
    addMapping { mapping with baseMethods := found.toList }
  | some base, _ =>
    addMapping { mapping with baseField := ← findField base record.baseMember }

def compiledMappings (role : BindingId) (d : Descriptor) : Resolve (List MappingId) := do
  match d.extension.attributes? with
  | none => return []
  | some attributes =>
    let base := (← ask (.baseClass role)).bind Env.bindingOf?
    let callins ← attributes.callins.zipIdx.mapM fun (r, i) => compiledCallin role base r i
    let callouts ← attributes.callouts.zipIdx.mapM fun (r, i) => compiledCallout role base r i
    return callins ++ callouts

def mappings (role : BindingId) : Resolve (List MappingId) := do
  let e ← get
  match (e.roleMappings.lookup role).getD .unresolved with
  | .resolved list => return list
  | .inProgress => reentrant role .mappings
  | .unresolved =>
    unless (e.binding role).isRole do return []
    setMappings role .inProgress
    let list ← match (e.binding role).origin with
      | .source decl unit => declaredMappings role decl unit
      | .binary d => compiledMappings role d
      | .problem _ => pure []
    setMappings role (.resolved list)
    return list

def callins (role : BindingId) : Resolve (List MappingId) := do
  let all ← mappings role
  let e ← get
  return all.filter fun m => (e.mapping m).kind.callin?.isSome

def baseCallProblems (m : Method) : List ProblemId :=
  match m.isCallin, m.origin with
  | true, .source decl => ((decl.bodyFlow.map FlowNode.baseCallCounts).map CallCounts.problems).getD []
  | _, _ => []

def checkBaseCalls (m : MethodId) : Resolve Unit := do
  let e ← get
  let method := e.method m
  (baseCallProblems method).forM fun p =>
    reportFor method.declaring p method.span [e.methodName m]

end TeamRoles.Resolve
