import TeamRoles.Lookup.Scope

/-!
The types that written references mean. A reference that means nothing is reported and stands for a
problem type.
-/

namespace TeamRoles

/-- A segment of a name, with the resolution of its arguments. -/
structure SegmentRef where
  name : String
  arity : Nat
  args : Resolve (List Ty)

namespace Resolve

def recordReference (unit : UnitId) (segments : List String) : Resolve Unit :=
  updateUnit unit fun u => { u with references := u.references.record segments }

def undefined (site : Site) (name : String) : Resolve Ty := do
  reportInUnit site.unit .undefinedType site.span [name]
  problemType name .notFound

def invisible (site : Site) (b : BindingId) : Resolve Ty := do
  let name := ((← get).binding b).name
  reportInUnit site.unit .notVisibleType site.span [name]
  problemType name .notVisible

/-- An instantiation; its arguments are compared with their bounds later. -/
def applyArgs (site : Site) (b : BindingId) (segment : SegmentRef) (enclosing : Option Ty) :
    Resolve Ty := do
  let e ← get
  let name := (e.binding b).name
  if segment.arity = 0 then return e.instantiate b [] enclosing
  unless (e.binding b).isGeneric do
    reportInUnit site.unit .nonGenericType site.span [name]
    return .declared b
  let vars ← ask (.typeVariables b)
  unless vars.length = segment.arity do
    reportInUnit site.unit .incorrectArityForParameterizedType site.span
      [name, vars.length.repr, segment.arity.repr]
    return (← get).instantiate b [] enclosing
  let args ← segment.args
  let t := (← get).instantiate b args enclosing
  modify fun e => { e with boundChecks := e.boundChecks ++ [⟨t, site.unit, site.span⟩] }
  return t

def isInstance : Ty → Bool
  | .parameterized _ _ _ => true
  | _ => false

/-- The segments behind a type name its member types. -/
def typeOfMembers (site : Site) (display : String) (b : BindingId) (t : Ty) :
    List SegmentRef → Resolve Ty
  | [] => do
    let name := ((← get).binding b).name
    updateUnit site.unit fun u => { u with references := u.references.recordQualified name }
    return t
  | segment :: rest => do
    match ← findMemberType b segment.name with
    | none => undefined site display
    | some member =>
      let e ← get
      if !site.baseContext && !e.isVisibleFrom member site.unit site.membersOf then
        invisible site member
      else
        let enclosing := if (e.binding member).modifiers.isStatic then none
          else some t |>.filter isInstance
        let inner ← applyArgs site member segment enclosing
        typeOfMembers site display member inner rest

/-- The shortest dotted name of two or more segments that names a type, and how many segments stand
before its last one. -/
def findQualifiedHead (package : String) (before : Nat) :
    List String → Resolve (Option (BindingId × Nat))
  | first :: second :: rest => do
    let package := if package.isEmpty then first else package ++ "." ++ first
    match ← findProper (Name.qualify package second) with
    | some b => return some (b, before + 1)
    | none => findQualifiedHead package (before + 1) (second :: rest)
  | _ => return none

/-- A type that opens the segments; the first of them carries its arguments. -/
def typeOfHead (site : Site) (display : String) (b : BindingId) : List SegmentRef → Resolve Ty
  | [] => return .declared b
  | segment :: rest => do
    let t ← applyArgs site b segment none
    typeOfMembers site display b t rest

def typeOfQualified (site : Site) (display : String) (segments : List SegmentRef) :
    Resolve Ty := do
  match ← findQualifiedHead "" 0 (segments.map (·.name)) with
  | none => undefined site display
  | some (b, before) =>
    if !site.baseContext && !(← get).isVisibleFrom b site.unit site.membersOf then invisible site b
    else typeOfHead site display b (segments.drop before)

def typeOfName (site : Site) (segments : List SegmentRef) : Resolve Ty := do
  let names := segments.map (·.name)
  let display := ".".intercalate names
  recordReference site.unit names
  match segments with
  | [] =>
    reportInUnit site.unit .malformedTypeReference site.span [""]
    problemType "" .notFound
  | first :: rest =>
    let var ← if rest.isEmpty && first.arity = 0 then findTypeVar first.name site else pure none
    match var with
    | some v => return .variable v
    | none => match ← findSimple first.name site with
      | .found b => typeOfHead site display b segments
      | .notVisible b =>
        if rest.isEmpty then invisible site b else typeOfQualified site display segments
      | .ambiguous candidates =>
        let e ← get
        reportInUnit site.unit .ambiguousType site.span
          (display :: candidates.map fun c => (e.binding c).name)
        problemType display .ambiguous
      | .notFound => typeOfQualified site display segments

mutual

def typeOfSpec (site : Site) : TypeSpec → Resolve Ty
  | .primitive keyword => do
    match BaseType.ofKeyword? keyword with
    | some b => return .primitive b
    | none =>
      reportInUnit site.unit .malformedTypeReference site.span [keyword]
      problemType keyword .notFound
  | .named segments => typeOfName site (segmentRefs site segments)
  | .variable name => do
    match ← findTypeVar name site with
    | some v => return .variable v
    | none =>
      recordReference site.unit [name]
      undefined site name
  | .array component => return .array (← typeOfSpec site component)
  -- The role itself is looked up in the team of its anchor once that is resolved.
  | .anchored role _ => do
    match ← findSimple role site with
    | .found b => return .declared b
    | _ => problemType role .invalidAnchor

def segmentRefs (site : Site) : List NameSegment → List SegmentRef
  | [] => []
  | .mk name args :: rest => ⟨name, args.length, typesOfArgs site args⟩ :: segmentRefs site rest

def typesOfArgs (site : Site) : List TypeArgSpec → Resolve (List Ty)
  | [] => return []
  | arg :: rest => do
    let t ← typeOfArg site arg
    return t :: (← typesOfArgs site rest)

def typeOfArg (site : Site) : TypeArgSpec → Resolve Ty
  | .type t => typeOfSpec site t
  | .wildcard => return .any
  | .extends bound => return .wildcard .extends (some (← typeOfSpec site bound))
  | .super bound => return .wildcard .super (some (← typeOfSpec site bound))

end

def typesOfSpecs (site : Site) (specs : List TypeSpec) : Resolve (List Ty) :=
  specs.mapM (typeOfSpec site)

end Resolve

end TeamRoles
