import TeamRoles.Env.Binding
import TeamRoles.Options
import TeamRoles.Provider
import TeamRoles.References

/-!
The environment of a session: everything that was built or resolved so far. Bindings, members and
the like only ever get added; their numbers are their places.
-/

namespace TeamRoles

inductive OnDemand where
  | package (name : String)
  | type (b : BindingId)
  deriving DecidableEq

structure BaseImport where
  binding : BindingId
  decl : ImportDecl
  deriving Inhabited

structure Imports where
  single : List (String × BindingId) := []
  onDemand : List OnDemand := []
  base : List BaseImport := []
  deriving Inhabited

namespace Imports

def single? (i : Imports) (simple : String) : Option BindingId := i.single.lookup simple

def base? (i : Imports) (simple : String) : Option BindingId :=
  (i.base.find? fun b => Name.simple b.decl.name == simple).map (·.binding)

end Imports

structure SourceUnit where
  decl : UnitDecl
  types : List BindingId := []
  imports : Slot Imports := .unresolved
  baseImportsVerified : Bool := false
  references : References := {}
  hasTeam : Bool := false
  deriving Inhabited

def SourceUnit.isRoleFile (u : SourceUnit) : Bool := u.decl.teamPackage.isSome

/-- Members of an instantiation, as far as they were asked for. -/
structure InstanceMembers where
  supertypes : Option Supertypes := none
  fields : Option (List FieldId) := none
  methods : Option (List MethodId) := none
  memberTypes : Option (List Ty) := none
  deriving Inhabited

/-- Type arguments that are compared with their bounds once all bounds are known. -/
structure BoundCheck where
  type : Ty
  unit : UnitId
  span : Span
  deriving Inhabited

structure Env where
  options : Options
  provider : Provider
  diagnostics : Diagnostics := {}
  bindings : Array Binding := #[]
  methods : Array Method := #[]
  fields : Array Field := #[]
  typeVars : Array TypeVar := #[]
  captures : Array Capture := #[]
  units : Array SourceUnit := #[]
  /-- The units that were added to the session, in the order in which they were built. -/
  added : List UnitId := []
  mappings : Array Mapping := #[]
  byName : List (String × BindingId) := []
  problemBindings : List ((String × ProblemReason) × BindingId) := []
  missing : List String := []
  instances : List (Ty × InstanceMembers) := []
  anchorsInProgress : List FieldId := []
  roleMappings : List (BindingId × Slot (List MappingId)) := []
  precedence : List (BindingId × PrecedenceTable) := []
  boundChecks : List BoundCheck := []
  deriving Inhabited

namespace Env

def binding (e : Env) (b : BindingId) : Binding := e.bindings[b.index]?.getD default
def method (e : Env) (m : MethodId) : Method := e.methods[m.index]?.getD default
def field (e : Env) (f : FieldId) : Field := e.fields[f.index]?.getD default
def typeVar (e : Env) (v : TypeVarId) : TypeVar := e.typeVars[v.index]?.getD default
def capture (e : Env) (c : CaptureId) : Capture := e.captures[c.index]?.getD default
def unit (e : Env) (u : UnitId) : SourceUnit := e.units[u.index]?.getD default
def mapping (e : Env) (m : MappingId) : Mapping := e.mappings[m.index]?.getD default

def lookup? (e : Env) (name : String) : Option BindingId := e.byName.lookup name

def nextBinding (e : Env) : BindingId := ⟨e.bindings.size⟩

/-- Every binding is the type its declaration introduces. -/
def isObject (e : Env) (b : BindingId) : Bool := (e.binding b).name == e.options.wellKnown.object

def isConfined (e : Env) (b : BindingId) : Bool :=
  (e.binding b).name == e.options.wellKnown.confined ||
    match (e.binding b).origin with
    | .binary d => (d.extension.attributes?.map (·.isConfined)).getD false
    | _ => false

/-- The class, role or instantiated generic behind a type. -/
def bindingOf? : Ty → Option BindingId
  | .declared b => some b
  | .parameterized generic _ _ => some generic
  | .raw generic _ => some generic
  | .anchored role _ => bindingOf? role
  | _ => none

def isProblemType (e : Env) (t : Ty) : Bool :=
  match bindingOf? t with
  | some b => (e.binding b).isProblem
  | none => false

/-- The enclosing types outwards, until they end or come round. -/
def outerFrom (e : Env) (fuel : Nat) (seen : List BindingId) (next : Option BindingId) :
    List BindingId :=
  match fuel, next with
  | fuel + 1, some b =>
    if seen.contains b then [] else b :: outerFrom e fuel (b :: seen) (e.binding b).enclosing
  | _, _ => []

def enclosingChain (e : Env) (b : BindingId) : List BindingId :=
  b :: e.outerFrom (e.bindings.size + 1) [b] (e.binding b).enclosing

def outermost (e : Env) (b : BindingId) : BindingId := (e.enclosingChain b).getLast?.getD b

def enclosingTeam? (e : Env) (b : BindingId) : Option BindingId :=
  ((e.enclosingChain b).drop 1).find? fun outer => (e.binding outer).isTeam

/-- All types around a type, itself included, must be within sight of a unit. -/
def isVisibleFrom (e : Env) (target : BindingId) (unit : UnitId) (inside : Option BindingId) : Bool :=
  let package := (e.unit unit).decl.package
  let fromOutermost := inside.map e.outermost
  (e.enclosingChain target).all fun t =>
    let b := e.binding t
    if b.isProblem || b.modifiers.isPublic then true
    else if b.modifiers.isPrivate then fromOutermost == some (e.outermost t)
    else b.package == package || Name.packageOf b.name == package

def inPackage (package name : String) : Bool :=
  name == package || (Name.dropFront? (package ++ ".") name).isSome

def packageExists (e : Env) (package : String) : Bool :=
  !package.isEmpty &&
    (e.units.any (fun u => inPackage package u.decl.effectivePackage) ||
      e.provider.packageExists package)

mutual

/-- The name of a type as problems show it, given the names of captures. -/
def typeNameWith (e : Env) (captureName : CaptureId → String) : Ty → String
  | .primitive b => b.keyword
  | .null => "null"
  | .declared b => (e.binding b).name
  | .parameterized generic args _ =>
    (e.binding generic).name ++ "<" ++ ",".intercalate (typeNamesWith e captureName args) ++ ">"
  | .raw generic _ => (e.binding generic).name
  | .variable v => (e.typeVar v).name
  | .wildcard .extends (some bound) => "? extends " ++ typeNameWith e captureName bound
  | .wildcard .super (some bound) => "? super " ++ typeNameWith e captureName bound
  | .wildcard _ _ => "?"
  | .captured c => captureName c
  | .array component => typeNameWith e captureName component ++ "[]"
  | .anchored role path =>
    typeNameWith e captureName role ++ "<@" ++
      ".".intercalate (path.map fun f => (e.field f).name) ++ ">"

def typeNamesWith (e : Env) (captureName : CaptureId → String) : List Ty → List String
  | [] => []
  | t :: rest => typeNameWith e captureName t :: typeNamesWith e captureName rest

end

def captureName (e : Env) : Nat → CaptureId → String
  | 0, c => "capture#" ++ c.index.repr
  | fuel + 1, c =>
    "capture#" ++ c.index.repr ++ " of " ++ e.typeNameWith (e.captureName fuel) (e.capture c).wildcard

def typeName (e : Env) (t : Ty) : String := e.typeNameWith (e.captureName e.captures.size) t

def methodName (e : Env) (m : MethodId) : String :=
  (e.binding (e.method m).declaring).name ++ "." ++ (e.method m).name

def mappingName (e : Env) (m : MappingId) : String :=
  let mapping := e.mapping m
  let role := (e.binding mapping.role).simpleName
  match mapping.label, mapping.roleMethod with
  | some label, _ => role ++ "." ++ label
  | none, some method => role ++ "." ++ (e.method method).name
  | none, none => role

/-- A method of a role that takes its team as a hidden argument. -/
def needsTeamInstance (e : Env) (m : MethodId) : Bool :=
  let method := e.method m
  Name.needsTeamInstance method.modifiers (e.binding method.declaring).isRole method.name

/-- A generic without arguments is raw; a class inside an instantiation belongs to it. -/
def instantiate (e : Env) (generic : BindingId) (args : List Ty) (enclosing : Option Ty) : Ty :=
  if args.isEmpty && (e.binding generic).isGeneric then .raw generic enclosing
  else if args.isEmpty && enclosing.isNone then .declared generic
  else .parameterized generic args enclosing

def bareType (e : Env) (b : BindingId) : Ty := e.instantiate b [] none

end Env

end TeamRoles
