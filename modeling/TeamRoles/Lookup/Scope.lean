import TeamRoles.Hierarchy.Search
import TeamRoles.Lookup.Imports

/-!
Simple names in scope: members of the types around, types of the unit, imports, types of the package,
on-demand imports, implicit imports. The first of these that knows a name decides.
-/

namespace TeamRoles

namespace Site

/-- Before the body of a type, where its members are not yet in scope. -/
def header (e : Env) (b : BindingId) (unit : UnitId) : Site :=
  { unit, membersOf := (e.binding b).enclosing, varsOf := some b, span := (e.binding b).span }

def body (b : BindingId) (unit : UnitId) (span : Span) : Site :=
  { unit, membersOf := some b, varsOf := some b, span }

end Site

/-- What a simple name means at a place. -/
inductive Meaning where
  | found (b : BindingId)
  | notFound
  | notVisible (b : BindingId)
  | ambiguous (candidates : List BindingId)

namespace Resolve

def seenFrom (site : Site) (b : BindingId) : Resolve Meaning := do
  if site.baseContext || (← get).isVisibleFrom b site.unit site.membersOf then return .found b
  else return .notVisible b

def findTypeVar (name : String) (site : Site) : Resolve (Option TypeVarId) := do
  let e ← get
  match site.methodVars.find? fun v => (e.typeVar v).name == name with
  | some v => return some v
  | none =>
    let owners := (site.varsOf.map e.enclosingChain).getD []
    owners.findSomeM? fun owner => do
      unless ((← get).binding owner).isGeneric do return none
      let vars ← ask (.typeVariables owner)
      let e ← get
      return vars.find? fun v => (e.typeVar v).name == name

/-- A type around the place, or a member of one. -/
def findAround (simple : String) (site : Site) : Resolve (Option Meaning) := do
  let e ← get
  let around := (site.membersOf.map e.enclosingChain).getD []
  around.findSomeM? fun t => do
    if ((← get).binding t).simpleName == simple then return some (.found t)
    match ← findMemberType t simple with
    | some m => return some (← seenFrom site m)
    | none => return none

def findInPackage (simple : String) (site : Site) (package : String) : Resolve (Option Meaning) := do
  match ← findProper (Name.qualify package simple) with
  | some b => return some (← seenFrom site b)
  | none => return none

/-- A name may be open through one import on demand only. -/
def findOnDemand (simple : String) (site : Site) (targets : List OnDemand) :
    Resolve (Option Meaning) := do
  let found ← targets.filterMapM fun
    | .package package => findProper (Name.qualify package simple)
    | .type owner => findMemberType owner simple
  match found.foldl (fun list b => if list.contains b then list else list ++ [b]) [] with
  | [] => return none
  | [b] => return some (← seenFrom site b)
  | candidates => return some (.ambiguous candidates)

/-- Beyond the types around: the unit and what it imports. -/
def findInUnit (simple : String) (site : Site) : Resolve (Option Meaning) := do
  let e ← get
  match (e.unit site.unit).types.find? fun t => (e.binding t).simpleName == simple with
  | some own => return some (.found own)
  | none =>
    let imports ← imports site.unit
    match imports.single? simple <|> if site.baseContext then imports.base? simple else none with
    | some b => return some (.found b)
    | none => match ← findInPackage simple site (e.unit site.unit).decl.package with
      | some meaning => return some meaning
      | none => match ← findOnDemand simple site imports.onDemand with
        | some meaning => return some meaning
        | none => (← get).options.implicitImports.findSomeM? (findInPackage simple site)

def findSimple (simple : String) (site : Site) : Resolve Meaning := do
  match ← findAround simple site with
  | some meaning => return meaning
  | none => return (← findInUnit simple site).getD .notFound

end Resolve

end TeamRoles
