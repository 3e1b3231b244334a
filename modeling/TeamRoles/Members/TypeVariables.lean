import TeamRoles.Lookup.Signature
import TeamRoles.Lookup.TypeSpec
import TeamRoles.Signature.Parser

/-!
Type variables. They are known before their bounds are resolved, so that bounds may mention them and
the type itself.
-/

namespace TeamRoles.Resolve

def addTypeVars (owner : TypeVarOwner) (names : List String) : Resolve (List TypeVarId) :=
  names.zipIdx.mapM fun (name, index) => addTypeVar { name, owner, index }

/-- Gives each variable the bounds that stand at its place. -/
def setBounds (vars : List TypeVarId) (bounds : List (Resolve (List Ty))) : Resolve Unit :=
  (vars.zip bounds).forM fun (v, bounds) => do
    let bounds ← bounds
    updateTypeVar v ({ · with bounds })

def declaredBounds (site : Site) (params : List TypeParamDecl) : List (Resolve (List Ty)) :=
  params.map fun p => typesOfSpecs site p.bounds

def signatureBounds (scope : SignatureScope) (formals : List Signature.Formal) :
    List (Resolve (List Ty)) :=
  formals.map fun p => p.bounds.mapM (typeOfSig scope)

/-- Makes the variables of a type known, then resolves their bounds. -/
def publishTypeVars (b : BindingId) (names : List String) (bounds : List (Resolve (List Ty))) :
    Resolve (List TypeVarId) := do
  let vars ← addTypeVars (.type b) names
  updateBinding b ({ · with typeVariables := .resolved vars })
  setBounds vars bounds
  return vars

/-- The type parameters of a descriptor; an unreadable signature has none. -/
def formalsOf (d : Descriptor) : List Signature.Formal :=
  match d.signature.map Signature.parseClass with
  | some (.ok c) => c.formals
  | _ => []

def typeVariables (b : BindingId) : Resolve (List TypeVarId) := do
  let x ← known b
  match x.typeVariables with
  | .resolved vars => return vars
  | .inProgress => reentrant b .typeVariables
  | .unresolved =>
    updateBinding b ({ · with typeVariables := .inProgress })
    match x.origin with
    | .source decl unit =>
      publishTypeVars b (decl.typeParams.map (·.name))
        (declaredBounds (.header (← get) b unit) decl.typeParams)
    | .binary d =>
      let formals := formalsOf d
      publishTypeVars b (formals.map (·.name)) (signatureBounds { owner := b } formals)
    | .problem _ => publishTypeVars b [] []

end TeamRoles.Resolve
