import TeamRoles.Generics.Instance

/-!
Subtyping, containment of type arguments and equivalence of types.
-/

namespace TeamRoles

def BaseType.widens : BaseType → BaseType → Bool
  | .byte, t => [.byte, .short, .int, .long, .float, .double].contains t
  | .short, t => [.short, .int, .long, .float, .double].contains t
  | .char, t => [.char, .int, .long, .float, .double].contains t
  | .int, t => [.int, .long, .float, .double].contains t
  | .long, t => [.long, .float, .double].contains t
  | .float, t => [.float, .double].contains t
  | s, t => s == t

namespace Resolve

def containsAll : List (Ty × Ty) → Resolve Bool
  | [] => return true
  | (arg, other) :: rest => do
    if ← ask (.contains arg other) then containsAll rest else return false

def containsBothWays : List (Ty × Ty) → Resolve Bool
  | [] => return true
  | (x, y) :: rest => do
    if ← ask (.contains x y) then
      if ← ask (.contains y x) then containsBothWays rest else return false
    else return false

/-- Does a type argument stand for all that another one stands for? -/
def contains (arg other : Ty) : Resolve Bool := do
  if arg == other then return true
  let object ← objectType
  match arg, other with
  | .wildcard .unbounded _, _ => return true
  | .wildcard .extends (some upper), .wildcard .extends (some bound) => ask (.isSubtype bound upper)
  | .wildcard .extends (some upper), .wildcard _ _ => return upper == object
  | .wildcard .extends (some upper), _ => ask (.isSubtype other upper)
  | .wildcard .super (some lower), .wildcard .super (some bound) => ask (.isSubtype lower bound)
  | .wildcard .super _, .wildcard _ _ => return false
  | .wildcard .super (some lower), _ => ask (.isSubtype lower other)
  | _, .wildcard _ _ => return false
  | _, _ => ask (.isEquivalent arg other)

def isEquivalent (a b : Ty) : Resolve Bool := do
  if a == b then return true
  match a, b with
  | .parameterized g xs outer, .parameterized h ys outer' =>
    if g != h || xs.length != ys.length then return false
    if ← containsBothWays (xs.zip ys) then
      match outer, outer' with
      | none, none => return true
      | some x, some y => ask (.isEquivalent x y)
      | _, _ => return false
    else return false
  | .raw g _, .raw h _ => return g == h
  | .array x, .array y => ask (.isEquivalent x y)
  | .anchored x p, .anchored y q => if p == q then ask (.isEquivalent x y) else return false
  | _, _ => return false

/-- Is an instantiation of a class, met above a type, good enough for the one that is wanted? -/
def fitsTarget (found sup : Ty) : Resolve Bool :=
  match found, sup with
  | _, .declared _ | _, .raw _ _ => return true
  | .parameterized _ args _, .parameterized _ wanted _ =>
    if args.length == wanted.length then containsAll (wanted.zip args) else return false
  | _, _ => return false

/-- Searches the types above a type for a class type. -/
def reachesType (sub sup : Ty) : Resolve Bool :=
  match Env.bindingOf? sup with
  | none => return false
  | some target =>
    walk .lastFirst (fun t => return (← typeSupertypes t).all) [sub] false fun _ current => do
      if Env.bindingOf? current != some target then return .inner false
      else if ← fitsTarget current sup then return .stop true
      else return .leaf false

def anySubtype (sup : Ty) : List Ty → Resolve Bool
  | [] => return false
  | t :: rest => do if ← ask (.isSubtype t sup) then return true else anySubtype sup rest

def isSubtype (sub sup : Ty) : Resolve Bool := do
  let e ← get
  if sub == sup || e.isProblemType sub || e.isProblemType sup then return true
  let object ← objectType
  match sub, sup with
  | .primitive _, _ | _, .primitive _ => return false
  | _, _ =>
    if sup == object then return true
    match sub, sup with
    | .null, _ => return true
    | .array x, .array y =>
      if x.isReference && y.isReference then ask (.isSubtype x y) else return x == y
    | .variable v, _ => anySubtype sup ((← get).typeVar v).bounds
    | .captured c, _ => ask (.isSubtype ((← get).capture c).upper sup)
    | _, .captured c => match ((← get).capture c).lower with
      | some lower => ask (.isSubtype sub lower)
      | none => return false
    | .anchored x p, .anchored y q => if p == q then ask (.isSubtype x y) else return false
    | _, .anchored _ _ => return false
    | .anchored role _, _ => ask (.isSubtype role sup)
    | _, .declared _ | _, .parameterized _ _ _ | _, .raw _ _ => reachesType sub sup
    | _, _ => return false

def isRawType : Ty → Bool
  | .raw _ _ => true
  | _ => false

/-- Can a value be used as one of another type without a role being put on or taken off? -/
def isCompatible (source target : Ty) : Resolve Bool := do
  if ← ask (.isSubtype source target) then return true
  match source, target with
  | .primitive a, .primitive b => return a.widens b
  | _, _ =>
    if isRawType source || isRawType target then
      let source ← erasure source
      let target ← erasure target
      ask (.isSubtype source target)
    else return false

def capture (t : Ty) (site : Span) : Resolve Ty := do
  match t with
  | .parameterized generic args enclosing =>
    let isWildcard : Ty → Bool
      | .wildcard _ _ => true
      | _ => false
    unless args.any isWildcard do return t
    let vars ← ask (.typeVariables generic)
    let object ← objectType
    let opened ← args.zipIdx.mapM fun (arg, index) => do
      let e ← get
      let declared := (vars[index]?.bind fun v => (e.typeVar v).bounds.head?).getD object
      match arg with
      | .wildcard kind bound =>
        let (upper, lower) := match kind, bound with
          | .extends, some bound => (bound, none)
          | .super, some bound => (declared, some bound)
          | _, _ => (declared, none)
        return .captured (← addCapture { wildcard := arg, index, site, upper, lower })
      | _ => return arg
    return .parameterized generic opened enclosing
  | _ => return t

/-- Compares the type arguments written so far with their bounds. -/
def checkBound (check : BoundCheck) : Resolve Unit := do
  match check.type with
  | .parameterized generic args _ =>
    let vars ← ask (.typeVariables generic)
    let s ← substitutionFor check.type
    (vars.zip args).forM fun (v, arg) => do
      let isWildcard := match arg with
        | .wildcard _ _ => true
        | _ => false
      unless isWildcard || (← get).isProblemType arg do
        unless ← withinBounds s arg ((← get).typeVar v).bounds do
          let e ← get
          reportInUnit check.unit .typeArgumentMismatch check.span
            [e.typeName arg, (e.typeVar v).name, e.typeName check.type]
  | _ => pure ()
where
  withinBounds (s : Substitution) (arg : Ty) : List Ty → Resolve Bool
    | [] => return true
    | bound :: rest => do
      let bound ← substitute s bound
      if ← ask (.isSubtype arg bound) then withinBounds s arg rest else return false

def checkDeferredBounds : Resolve Unit := do
  let checks := (← get).boundChecks
  modify ({ · with boundChecks := [] })
  checks.forM checkBound

end Resolve

end TeamRoles
