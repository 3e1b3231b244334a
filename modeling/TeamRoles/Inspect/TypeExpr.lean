import TeamRoles.Decl.Json
import TeamRoles.Session

/-!
Questions to a session by name. A type is asked for by an expression, written as JSON: the name of a
type, or an object that says how the type is built from others.
-/

namespace TeamRoles

namespace Inspect

inductive Failure where
  | invalid
  | noSuchQuestion (name : String)
  | noSuchType (name : String)
  | noSuchMethod (name : String)
  | noSuchField (name : String)
  | noSuchUnit (index : Nat)
  | noSuchVariable (index : Nat)
  | noSuchArgument (index : Nat)
  | noSubstitution
  | noSuperclass
  | noBaseClass
  | view (cause : ViewError)
  | aborted (cause : Abort)

end Inspect

/-- Questions see what questions before them have resolved, even if they failed. -/
abbrev Inspect := ExceptT Inspect.Failure (StateM Env)

namespace Inspect

def resolving {α : Type} (x : Resolve α) : Inspect α := do
  let (outcome, e) := x.run (← get)
  set e
  match outcome with
  | .ok a => return a
  | .error cause => throw (.aborted cause)

def asking {α : Type} (q : Query α) : Inspect α := resolving (Resolve.ask q)

def orFail {α : Type} (failure : Failure) : Option α → Inspect α
  | some a => return a
  | none => throw failure

def readAs (α : Type) [FromJson α] (j : Json) : Inspect α := orFail .invalid (fromJson? j)

def typeNamed (name : String) : Inspect BindingId := do
  orFail (.noSuchType name) (← resolving (Resolve.findType name))

def methodNamed (b : BindingId) (name : String) (index : Nat) : Inspect MethodId := do
  orFail (.noSuchMethod name) (← resolving (Resolve.findMethods b name))[index]?

def fieldNamed (type name : String) : Inspect FieldId := do
  let b ← typeNamed type
  orFail (.noSuchField name) (← resolving (Resolve.findField b name))

def unitAt (index : Nat) : Inspect UnitId := do
  orFail (.noSuchUnit index) (← get).added[index]?

def argOf (t : Ty) (index : Nat) : Inspect Ty :=
  match t with
  | .parameterized _ args _ => orFail (.noSuchArgument index) args[index]?
  | _ => throw (.noSuchArgument index)

def substituted (site t : Ty) : Inspect Ty := do
  let s ← resolving (Resolve.substitutionFor site)
  if s.isEmpty then throw .noSubstitution
  resolving (Resolve.substitute s t)

def typeOfWord (word : String) : Inspect Ty := do
  if word = "null" then return .null
  match BaseType.ofKeyword? word with
  | some b => return .primitive b
  | none => return .declared (← typeNamed word)

/-- The keys that say how a type is built; the first one present counts. -/
def builders : List String :=
  ["bare", "of", "var", "mvar", "any", "extends", "super", "array", "anchored", "field", "capture",
    "erasure", "subst", "superclass", "base_of", "arg"]

def memberOf (j : Json) (key : String) : Json := ((j.member? key).join).getD .null

def build (typeOf : Json → Inspect Ty) (j : Json) (key : String) : Inspect Ty := do
  let v := memberOf j key
  match key, v with
  | "bare", _ =>
    let b ← typeNamed (← readAs String v)
    return (← get).bareType b
  | "of", _ =>
    let b ← typeNamed (← readAs String v)
    let args ← match j.member? "args" with
      | some (some args) => readAs (List Json) args
      | _ => pure []
    let args ← args.mapM typeOf
    let enclosing ← match j.member? "in" with
      | some (some outer) => some <$> typeOf outer
      | _ => pure none
    return (← get).instantiate b args enclosing
  | "var", _ =>
    let (name, index) ← readAs (String × Nat) v
    let vars ← asking (.typeVariables (← typeNamed name))
    return .variable (← orFail (.noSuchVariable index) vars[index]?)
  | "mvar", .arr [type, method, index] =>
    let type ← readAs String type
    let method ← readAs String method
    let index ← readAs Nat index
    let m ← methodNamed (← typeNamed type) method 0
    return .variable (← orFail (.noSuchVariable index) ((← get).method m).typeVariables[index]?)
  | "any", _ => return .any
  | "extends", _ => return .wildcard .extends (some (← typeOf v))
  | "super", _ => return .wildcard .super (some (← typeOf v))
  | "array", _ => return .array (← typeOf v)
  | "anchored", _ =>
    let role ← typeOf v
    let path ← readAs (List (String × String)) (memberOf j "path")
    return .anchored role (← path.mapM fun (type, name) => fieldNamed type name)
  | "field", _ =>
    let (type, name) ← readAs (String × String) v
    asking (.fieldType (← fieldNamed type name))
  | "capture", _ =>
    let t ← typeOf v
    resolving (Resolve.capture t {})
  | "erasure", _ =>
    let t ← typeOf v
    resolving (Resolve.erasure t)
  | "subst", .arr [site, t] =>
    let site ← typeOf site
    let t ← typeOf t
    substituted site t
  | "superclass", _ =>
    let t ← typeOf v
    orFail .noSuperclass (← resolving (Resolve.typeSupertypes t)).superclass
  | "base_of", _ =>
    let t ← typeOf v
    orFail .noBaseClass (← resolving (Resolve.baseClassOf t))
  | "arg", .arr [t, index] =>
    let index ← readAs Nat index
    argOf (← typeOf t) index
  | _, _ => throw .invalid

def typeOfFuel (fuel : Nat) (j : Json) : Inspect Ty :=
  match fuel, j with
  | _, .str word => typeOfWord word
  | fuel + 1, .obj _ => match builders.find? fun key => ((j.member? key).join).isSome with
    | some key => build (typeOfFuel fuel) j key
    | none => throw .invalid
  | _, _ => throw .invalid

def typeOf (j : Json) : Inspect Ty := typeOfFuel j.depth j

end Inspect

end TeamRoles
