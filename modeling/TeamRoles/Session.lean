import TeamRoles.Generics.Subtyping
import TeamRoles.Hierarchy.Supertypes
import TeamRoles.Lookup.Units
import TeamRoles.Members.Methods
import TeamRoles.Precedence.Basic
import TeamRoles.Roles.Anchor
import TeamRoles.Roles.BaseClass
import TeamRoles.Roles.Lifting

/-!
A session: the environment of its units and types, and the resolution of all of them. Here the oracle
of resolution is made of the resolution steps themselves, one level of questions at a time.
-/

namespace TeamRoles

namespace Resolve

def answer {α : Type} : Query α → Resolve α
  | .findType name => findType name
  | .supertypes b => supertypes b
  | .typeVariables b => typeVariables b
  | .fields b => fields b
  | .methods b => methods b
  | .baseClass b => baseClass b
  | .fieldType f => fieldType f
  | .isSubtype sub sup => isSubtype sub sup
  | .contains arg other => contains arg other
  | .isEquivalent a b => isEquivalent a b

/-- An oracle for questions that nest at most so deep. -/
def oracle : Nat → Oracle
  | 0 => ⟨0, fun _ e => (.error .tooDeep, e)⟩
  | depth + 1 => ⟨depth + 1, fun q e => answer q (oracle depth) e⟩

/-- More than any program needs. -/
def maxDepth : Nat := 100000

def run {α : Type} (x : Resolve α) (e : Env) : Except Abort α × Env := x (oracle maxDepth) e

def visibilityRank (m : Modifiers) : Nat :=
  if m.isPublic then 3 else if m.contains .protected then 2 else if m.isPrivate then 0 else 1

def canOverride (m : Method) : Bool :=
  !m.isConstructor && !m.modifiers.isStatic && !m.modifiers.isPrivate

/-- The methods of all superclasses, the nearest first. -/
def inheritedMethods (b : BindingId) : Resolve (List MethodId) := do
  let superclass := (← ask (.supertypes b)).superclass
  walk .depthFirst (fun t => return (← typeSupertypes t).superclass.toList) superclass.toList []
    fun found t => return .inner (found ++ (← typeMethods t))

def checkOverride (b : BindingId) (inherited : List MethodId) (m : MethodId) : Resolve Unit := do
  let e ← get
  let method := e.method m
  unless method.isSource && canOverride method do return
  let overridden := inherited.find? fun other =>
    (e.method other).name == method.name && canOverride (e.method other) && e.sameParameters m other
  overridden.forM fun other => do
    let shown := [e.methodName m, e.methodName other]
    let ret := method.declared.ret
    let superRet := (e.method other).declared.ret
    unless e.isProblemType ret || e.isProblemType superRet || ret == superRet do
      unless ← ask (.isSubtype ret superRet) do
        reportFor b .incompatibleReturnType method.span shown
    if visibilityRank method.modifiers < visibilityRank (e.method other).modifiers then
      reportFor b .methodReducesVisibility method.span shown

def checkOverrides (b : BindingId) : Resolve Unit := do
  let inherited ← inheritedMethods b
  unless inherited.isEmpty do
    let own ← ask (.methods b)
    own.forM (checkOverride b inherited)

def resolveAllComponents (b : BindingId) : Resolve Unit := do
  discard (ask (.supertypes b))
  discard (memberTypes b)
  discard (ask (.typeVariables b))
  discard (ask (.fields b))
  discard (ask (.methods b))
  discard (ask (.baseClass b))

/-- Resolution may add types, which are then resolved as well. -/
def resolveFrom (fuel : Nat) (next : Nat) : Resolve Unit := do
  if (← get).bindings.size ≤ next then return
  match fuel with
  | 0 => throw .tooDeep
  | fuel + 1 =>
    resolveAllComponents ⟨next⟩
    resolveFrom fuel (next + 1)

/-- The types of a unit and the types inside them, as far as the unit declares them. -/
def typesWithin (e : Env) (unit : UnitId) : Nat → List BindingId → List BindingId
  | 0, _ => []
  | _ + 1, [] => []
  | fuel + 1, b :: rest =>
    let members := (((e.binding b).memberTypes.get?).getD []).filter fun m =>
      (e.binding m).unit? == some unit
    b :: typesWithin e unit fuel (members ++ rest)

def declaredTypes (e : Env) (unit : UnitId) : List BindingId :=
  (typesWithin e unit e.bindings.size (e.unit unit).types).mergeSort fun a b => a.index ≤ b.index

def checkRole (b : BindingId) : Resolve Unit := do
  if ((← get).binding b).isRole then
    discard (mappings b)
    (← ask (.methods b)).forM checkBaseCalls

def checkType (b : BindingId) : Resolve Unit := do
  if ((← get).binding b).isTeam then discard (precedence b)
  checkOverrides b

/-- Resolves and checks the units that were added. -/
def resolve : Resolve Unit := do
  checkPackageCollisions
  let units := (← get).added
  units.forM fun u => discard (imports u)
  resolveFrom (← depth) 0
  checkDeferredBounds
  units.forM verifyBaseImports
  let e ← get
  let declared := units.flatMap (declaredTypes e)
  declared.forM checkRole
  declared.forM checkType

end Resolve

def Env.new (provider : Provider) (options : Options) : Except Abort Env :=
  match options.severityConfig with
  | .ok config => .ok { options, provider, diagnostics := { config } }
  | .error cause => .error (.config cause)

end TeamRoles
