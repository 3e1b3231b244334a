import TeamRoles.Lookup.Load
import TeamRoles.Signature.Basic

/-!
The types that signatures of compiled members mean. A class that is not there stands for a problem
type; nothing is reported.
-/

namespace TeamRoles

structure SignatureScope where
  owner : BindingId
  methodVars : List TypeVarId := []

namespace Resolve

open Signature

def typeOfVar (scope : SignatureScope) (name : String) : Resolve Ty := do
  let e ← get
  match scope.methodVars.find? fun v => (e.typeVar v).name == name with
  | some v => return .variable v
  | none =>
    let found ← (e.enclosingChain scope.owner).findSomeM? fun owner => do
      let vars ← ask (.typeVariables owner)
      let e ← get
      return vars.find? fun v => (e.typeVar v).name == name
    match found with
    | some v => return .variable v
    | none => problemType name .notFound

mutual

def typeOfSig (scope : SignatureScope) : TypeSig → Resolve Ty
  | .base b => return .primitive b
  | .cls segments => typeOfSegments scope "" none segments
  | .var name => typeOfVar scope name
  | .array component => return .array (← typeOfSig scope component)

/-- A class nested in an instantiation belongs to it. -/
def typeOfSegments (scope : SignatureScope) (outer : String) (enclosing : Option Ty) :
    List Segment → Resolve Ty
  | [] => match enclosing with
    | some t => return t
    | none => throw (.internal "class signature without segments")
  | .mk name args :: rest => do
    let full := if outer.isEmpty then name else outer ++ "$" ++ name
    let b ← findTypeOrProblem full
    let args ← typesOfSigArgs scope args
    let enclosing := enclosing.filter fun
      | .parameterized _ _ _ => true
      | _ => false
    typeOfSegments scope full (some ((← get).instantiate b args enclosing)) rest

def typesOfSigArgs (scope : SignatureScope) : List TypeArg → Resolve (List Ty)
  | [] => return []
  | arg :: rest => do
    let t ← typeOfSigArg scope arg
    return t :: (← typesOfSigArgs scope rest)

def typeOfSigArg (scope : SignatureScope) : TypeArg → Resolve Ty
  | .any => return .any
  | .extends bound => return .wildcard .extends (some (← typeOfSig scope bound))
  | .super bound => return .wildcard .super (some (← typeOfSig scope bound))
  | .exact t => typeOfSig scope t

end

def typeOfClass (scope : SignatureScope) (c : ClassType) : Resolve Ty :=
  typeOfSegments scope "" none c.segments

end Resolve

end TeamRoles
