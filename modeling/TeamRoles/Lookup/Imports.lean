import TeamRoles.Lookup.Load

/-!
Imports of a unit. An import is checked where it stands; base imports are checked once more when it
is known which of them a role is bound to.
-/

namespace TeamRoles

namespace Name

/-- The name with its last dot turned into a nesting sign. -/
def nestLast? (name : String) : Option String :=
  let front := name.toList.reverse.dropWhile (· != '.')
  let back := (name.toList.reverse.takeWhile (· != '.')).reverse
  match front with
  | [] => none
  | _ :: front => some (String.ofList (front.reverse ++ '$' :: back))

/-- A dotted name as package and class, as class and nested class, and so on. -/
def nestings (fuel : Nat) (name : String) : List String :=
  match fuel with
  | 0 => [name]
  | fuel + 1 => name :: match nestLast? name with
    | some nested => nestings fuel nested
    | none => []

def dropMember (name : String) : String :=
  if name.toList.contains '.' then
    String.ofList ((name.toList.reverse.dropWhile (· != '.')).drop 1).reverse
  else name

end Name

namespace Resolve

def importedType (name : String) : Resolve (Option BindingId) :=
  (Name.nestings name.length name).findSomeM? findProper

def resolveOnDemand (unit : UnitId) (i : ImportDecl) (sofar : Imports) : Resolve Imports := do
  if (← get).packageExists i.name then
    return { sofar with onDemand := sofar.onDemand ++ [.package i.name] }
  match ← importedType i.name with
  | some owner => return { sofar with onDemand := sofar.onDemand ++ [.type owner] }
  | none =>
    reportInUnit unit .importNotFound i.span [i.name]
    return sofar

/-- Binds the simple name of a type, unless it means another type already. -/
def importSingle (unit : UnitId) (i : ImportDecl) (target : BindingId) (sofar : Imports) :
    Resolve Imports := do
  let e ← get
  unless e.isVisibleFrom target unit none do
    reportInUnit unit .importNotVisible i.span [i.name]
    return sofar
  let simple := (e.binding target).simpleName
  match (e.unit unit).types.find? fun t => (e.binding t).simpleName == simple with
  | some own =>
    if own != target then reportInUnit unit .importConflictsWithType i.span [i.name]
    return sofar
  | none => match sofar.single? simple with
    | some existing =>
      if existing != target then reportInUnit unit .conflictingImport i.span [i.name]
      return sofar
    | none => return { sofar with single := (simple, target) :: sofar.single }

/-- Of a static import only the type has to exist. -/
def resolveSingle (unit : UnitId) (i : ImportDecl) (sofar : Imports) : Resolve Imports := do
  let name := if i.isStatic then Name.dropMember i.name else i.name
  match ← importedType name with
  | none =>
    let isPackage := !i.isStatic && (← get).packageExists name
    reportInUnit unit (if isPackage then .cannotImportPackage else .importNotFound) i.span [i.name]
    return sofar
  | some target =>
    if i.isStatic then return sofar
    else if ((← get).binding target).isRole then
      reportInUnit unit .importOfRoleType i.span [i.name]
      return sofar
    else if i.isBase then return { sofar with base := sofar.base ++ [⟨target, i⟩] }
    else importSingle unit i target sofar

def resolveImport (unit : UnitId) (i : ImportDecl) (sofar : Imports) : Resolve Imports := do
  updateUnit unit fun u => { u with references := u.references.record (splitDots i.name) }
  if i.isBase && !((← get).unit unit).hasTeam then
    reportInUnit unit .baseImportInRegularClass i.span [i.name]
    return sofar
  else if i.onDemand then resolveOnDemand unit i sofar
  else resolveSingle unit i sofar

def sameImport (a b : ImportDecl) : Bool :=
  a.name == b.name && a.onDemand == b.onDemand && a.isStatic == b.isStatic && a.isBase == b.isBase

def resolveImports (unit : UnitId) (seen : List ImportDecl) (sofar : Imports) :
    List ImportDecl → Resolve Imports
  | [] => return sofar
  | i :: rest => do
    if seen.any (sameImport · i) then
      reportInUnit unit .duplicateImport i.span [i.name]
      resolveImports unit seen sofar rest
    else resolveImports unit (i :: seen) (← resolveImport unit i sofar) rest

def imports (unit : UnitId) : Resolve Imports := do
  let u ← knownUnit unit
  match u.imports with
  | .resolved imports => return imports
  | .inProgress =>
    throw (.internal ("imports of '" ++ u.decl.fileName ++
      "' requested while they are being resolved"))
  | .unresolved =>
    updateUnit unit ({ · with imports := .inProgress })
    let imports ← resolveImports unit [] {} u.decl.imports
    updateUnit unit ({ · with imports := .resolved imports })
    return imports

/-- Base imports that no role of the unit is bound to; checked once. -/
def verifyBaseImports (unit : UnitId) : Resolve Unit := do
  if ((← get).unit unit).baseImportsVerified then return
  updateUnit unit ({ · with baseImportsVerified := true })
  let imports ← imports unit
  if imports.base.isEmpty then return
  let e ← get
  let roles := ((List.range e.bindings.size).map BindingId.mk).filter fun b =>
    (e.binding b).unit? == some unit && (e.binding b).isRole
  let bound ← roles.filterMapM fun role =>
    return (← ask (.baseClass role)).bind Env.bindingOf?
  imports.base.forM fun i => do
    unless bound.contains i.binding do
      let visible := (← get).isVisibleFrom i.binding unit none
      reportInUnit unit (if visible then .unusedBaseImport else .importNotVisible) i.decl.span
        [i.decl.name]

end Resolve

end TeamRoles
