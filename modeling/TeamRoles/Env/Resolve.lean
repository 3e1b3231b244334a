import TeamRoles.Env.Basic

/-!
Resolution as a state monad. What is resolved may depend on itself through many parts of the
program, so a resolution step does not call the others but asks an oracle; tying the knot gives each
step an oracle that may be asked one level less deep. A resolution that is aborted keeps the
environment as it stands.
-/

namespace TeamRoles

/-- The parts of a type that are resolved on demand. -/
inductive Component where
  | supertypes | memberTypes | typeVariables | fields | methods | baseClass | tsuperRoles | mappings
  deriving DecidableEq

namespace Component

def all : List Component :=
  [.supertypes, .memberTypes, .typeVariables, .fields, .methods, .baseClass, .tsuperRoles, .mappings]

def text : Component → String
  | .supertypes => "supertypes"
  | .memberTypes => "member types"
  | .typeVariables => "type variables"
  | .fields => "fields"
  | .methods => "methods"
  | .baseClass => "base class"
  | .tsuperRoles => "tsuper roles"
  | .mappings => "method mappings"

end Component

inductive Abort where
  | reentrant (binding : String) (component : Component)
  | internal (reason : String)
  | config (cause : ConfigError)
  | view (cause : ViewError)
  /-- Questions nest deeper than the oracle answers. -/
  | tooDeep
  deriving DecidableEq

def Abort.message : Abort → String
  | .reentrant binding component =>
    "re-entrant resolution of " ++ component.text ++ " for '" ++ binding ++ "'"
  | .internal reason => "internal inconsistency: " ++ reason
  | .config cause => "invalid configuration: " ++ cause.message
  | .view cause => cause.message
  | .tooDeep => "resolution nests too deep"

/-- The place from which a name is looked up. -/
structure Site where
  unit : UnitId
  /-- The innermost type whose members, and those of the types around it, are in scope. -/
  membersOf : Option BindingId
  /-- The innermost type whose type variables are in scope. -/
  varsOf : Option BindingId
  methodVars : List TypeVarId := []
  /-- Base classes may be named although they are out of sight. -/
  baseContext : Bool := false
  span : Span

/-- Questions of resolution, by the type of their answers. -/
inductive Query : Type → Type where
  | findType (name : String) : Query (Option BindingId)
  | supertypes (b : BindingId) : Query Supertypes
  | typeVariables (b : BindingId) : Query (List TypeVarId)
  | fields (b : BindingId) : Query (List FieldId)
  | methods (b : BindingId) : Query (List MethodId)
  | baseClass (b : BindingId) : Query (Option Ty)
  | fieldType (f : FieldId) : Query Ty
  | isSubtype (sub sup : Ty) : Query Bool
  | contains (arg other : Ty) : Query Bool
  | isEquivalent (a b : Ty) : Query Bool

/-- Answers questions; `depth` bounds the steps of a single walk as well. -/
structure Oracle where
  depth : Nat
  ask : {α : Type} → Query α → Env → Except Abort α × Env

def Resolve (α : Type) : Type 1 := Oracle → Env → Except Abort α × Env

namespace Resolve

@[always_inline, inline]
protected def pure {α : Type} (a : α) : Resolve α := fun _ e => (.ok a, e)

@[always_inline, inline]
protected def bind {α β : Type} (x : Resolve α) (f : α → Resolve β) : Resolve β := fun o e =>
  match x o e with
  | (.ok a, e) => f a o e
  | (.error abort, e) => (.error abort, e)

instance : Monad Resolve where
  pure := Resolve.pure
  bind := Resolve.bind

instance : MonadStateOf Env Resolve where
  get := fun _ e => (.ok e, e)
  set e := fun _ _ => (.ok (), e)
  modifyGet f := fun _ e => match f e with
    | (a, e) => (.ok a, e)

instance : MonadExceptOf Abort Resolve where
  throw abort := fun _ e => (.error abort, e)
  tryCatch x handle := fun o e => match x o e with
    | (.error abort, e) => handle abort o e
    | done => done

/-- The outcome of a resolution, without giving up when it does. -/
def attempt {α : Type} (x : Resolve α) : Resolve (Except Abort α) := fun o e =>
  match x o e with
  | (outcome, e) => (.ok outcome, e)

def ask {α : Type} (q : Query α) : Resolve α := fun o e => o.ask q e

def depth : Resolve Nat := fun o e => (.ok o.depth, e)

def addBinding (b : Binding) : Resolve BindingId :=
  modifyGet fun e => (e.nextBinding, { e with bindings := e.bindings.push b })

def addMethod (m : Method) : Resolve MethodId :=
  modifyGet fun e => (⟨e.methods.size⟩, { e with methods := e.methods.push m })

def addField (f : Field) : Resolve FieldId :=
  modifyGet fun e => (⟨e.fields.size⟩, { e with fields := e.fields.push f })

def addTypeVar (v : TypeVar) : Resolve TypeVarId :=
  modifyGet fun e => (⟨e.typeVars.size⟩, { e with typeVars := e.typeVars.push v })

def addCapture (c : Capture) : Resolve CaptureId :=
  modifyGet fun e => (⟨e.captures.size⟩, { e with captures := e.captures.push c })

def addMapping (m : Mapping) : Resolve MappingId :=
  modifyGet fun e => (⟨e.mappings.size⟩, { e with mappings := e.mappings.push m })

def updateBinding (b : BindingId) (f : Binding → Binding) : Resolve Unit :=
  modify fun e => { e with bindings := e.bindings.modify b.index f }

def updateMethod (m : MethodId) (f : Method → Method) : Resolve Unit :=
  modify fun e => { e with methods := e.methods.modify m.index f }

def changeView (change : Method → Except ViewError Method) (m : MethodId) : Resolve Unit := do
  match change ((← get).method m) with
  | .ok changed => updateMethod m fun _ => changed
  | .error cause => throw (.view cause)

def updateField (i : FieldId) (f : Field → Field) : Resolve Unit :=
  modify fun e => { e with fields := e.fields.modify i.index f }

def updateTypeVar (v : TypeVarId) (f : TypeVar → TypeVar) : Resolve Unit :=
  modify fun e => { e with typeVars := e.typeVars.modify v.index f }

def updateUnit (u : UnitId) (f : SourceUnit → SourceUnit) : Resolve Unit :=
  modify fun e => { e with units := e.units.modify u.index f }

def bindName (name : String) (b : BindingId) : Resolve Unit :=
  modify fun e => { e with byName := (name, b) :: e.byName }

def reportInFile (file : Option String) (p : ProblemId) (span : Span) (arguments : List String) :
    Resolve Unit :=
  modify fun e =>
    let previous := e.diagnostics.currentFile
    { e with diagnostics := ((e.diagnostics.setFile file).report p span arguments).setFile previous }

def reportInUnit (unit : UnitId) (p : ProblemId) (span : Span) (arguments : List String) :
    Resolve Unit := do
  reportInFile (some ((← get).unit unit).decl.fileName) p span arguments

/-- The report names the file of the type, if it has one. -/
def reportFor (b : BindingId) (p : ProblemId) (span : Span) (arguments : List String) :
    Resolve Unit := do
  let e ← get
  reportInFile ((e.binding b).unit?.map fun u => (e.unit u).decl.fileName) p span arguments

def reentrant {α : Type} (b : BindingId) (c : Component) : Resolve α := do
  throw (.reentrant ((← get).binding b).name c)

/-- A number that no type has is refused. -/
def known (b : BindingId) : Resolve Binding := do
  let e ← get
  if e.bindings.size ≤ b.index then
    throw (.internal ("no type has the number " ++ b.index.repr))
  else return e.binding b

/-- A number that no unit has is refused. -/
def knownUnit (u : UnitId) : Resolve SourceUnit := do
  let e ← get
  if e.units.size ≤ u.index then
    throw (.internal ("no unit has the number " ++ u.index.repr))
  else return e.unit u

/-- A stand-in for the type of that name, the same one for the same reason. -/
def problemBinding (name : String) (reason : ProblemReason) : Resolve BindingId := do
  match (← get).problemBindings.lookup (name, reason) with
  | some b => return b
  | none =>
    let b ← addBinding {
      name, package := Name.packageOf name, modifiers := .public, origin := .problem reason
      supertypes := .resolved {}, memberTypes := .resolved [], typeVariables := .resolved []
      fields := .resolved [], methods := .resolved [], baseClass := .resolved none
      hierarchyHasProblems := true }
    modify fun e => { e with problemBindings := ((name, reason), b) :: e.problemBindings }
    return b

def problemType (name : String) (reason : ProblemReason) : Resolve Ty :=
  return .declared (← problemBinding name reason)

def findTypeOrProblem (name : String) : Resolve BindingId := do
  match ← ask (.findType name) with
  | some b => return b
  | none => problemBinding name .notFound

def wellKnown (name : WellKnownNames → String) : Resolve BindingId := do
  findTypeOrProblem (name (← get).options.wellKnown)

def wellKnownType (name : WellKnownNames → String) : Resolve Ty :=
  return .declared (← wellKnown name)

def objectType : Resolve Ty := wellKnownType (·.object)

end Resolve

end TeamRoles
