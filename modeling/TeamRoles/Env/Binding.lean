import TeamRoles.Decl.Basic
import TeamRoles.Descriptor.Basic
import TeamRoles.Types.Basic

/-!
What a session knows about types, their members and their mappings. The parts of a type are slots
that are filled on demand, each at most once.
-/

namespace TeamRoles

/-- A part that is computed when it is first asked for. -/
inductive Slot (α : Type) where
  | unresolved
  | inProgress
  | resolved (value : α)

namespace Slot

instance {α : Type} : Inhabited (Slot α) := ⟨.unresolved⟩

def get? {α : Type} : Slot α → Option α
  | .resolved value => some value
  | _ => none

def isResolved {α : Type} (s : Slot α) : Bool := s.get?.isSome

def isInProgress {α : Type} : Slot α → Bool
  | .inProgress => true
  | _ => false

end Slot

inductive ProblemReason where
  | notFound | notVisible | ambiguous | hierarchyCycle | invalidAnchor | corrupt
  deriving DecidableEq, Inhabited

inductive Origin where
  | source (decl : TypeDecl) (unit : UnitId)
  | binary (descriptor : Descriptor)
  /-- A stand-in for a type that could not be had. -/
  | problem (reason : ProblemReason)
  deriving Inhabited

structure Supertypes where
  superclass : Option Ty := none
  interfaces : List Ty := []
  deriving Inhabited

/-- What a team collects from its role files. -/
structure TeamModel where
  roleFiles : List UnitId := []
  roleFileRoles : List BindingId := []
  deriving Inhabited

structure RoleModel where
  team : BindingId
  /-- The roles that this one refines, those of the nearest super-team first. -/
  tsuperRoles : Slot (List BindingId) := .unresolved
  deriving Inhabited

structure Binding where
  name : String
  package : String
  modifiers : Modifiers
  origin : Origin
  enclosing : Option BindingId := none
  span : Span := {}
  supertypes : Slot Supertypes := .unresolved
  memberTypes : Slot (List BindingId) := .unresolved
  typeVariables : Slot (List TypeVarId) := .unresolved
  fields : Slot (List FieldId) := .unresolved
  methods : Slot (List MethodId) := .unresolved
  baseClass : Slot (Option Ty) := .unresolved
  hierarchyHasProblems : Bool := false
  team : Option TeamModel := none
  role : Option RoleModel := none
  deriving Inhabited

namespace Binding

def simpleName (b : Binding) : String := Name.simple b.name

def isTeam (b : Binding) : Bool := b.modifiers.isTeam
def isRole (b : Binding) : Bool := b.modifiers.isRole
def isInterface (b : Binding) : Bool := b.modifiers.isInterface

def isProblem (b : Binding) : Bool := match b.origin with
  | .problem _ => true
  | _ => false

def isBinary (b : Binding) : Bool := match b.origin with
  | .binary _ => true
  | _ => false

def decl? (b : Binding) : Option TypeDecl := match b.origin with
  | .source decl _ => some decl
  | _ => none

def unit? (b : Binding) : Option UnitId := match b.origin with
  | .source _ unit => some unit
  | _ => none

def isSource (b : Binding) : Bool := b.unit?.isSome

def isGeneric (b : Binding) : Bool := match b.origin with
  | .source decl _ => !decl.typeParams.isEmpty
  | .binary d => match d.signature with
    | some signature => signature.toList.head? == some '<'
    | none => false
  | .problem _ => false

/-- The parts of a binding that are not resolved yet, each with its bit. -/
def pending (b : Binding) : List (Nat × String) :=
  [(!b.supertypes.isResolved, 0x01, "superclass"), (!b.supertypes.isResolved, 0x02, "interfaces"),
    (!b.memberTypes.isResolved, 0x04, "member-types"),
    (!b.typeVariables.isResolved, 0x08, "type-variables"),
    (!b.fields.isResolved, 0x10, "fields"), (!b.methods.isResolved, 0x20, "methods"),
    (!b.baseClass.isResolved, 0x40, "base-class")].filterMap
    fun (isPending, bit, name) => if isPending then some (bit, name) else none

def pendingBits (b : Binding) : Nat := b.pending.foldl (fun bits p => bits + p.1) 0

def pendingText (b : Binding) : String :=
  if b.pending.isEmpty then "resolved" else "|".intercalate (b.pending.map (·.2))

end Binding

structure MethodType where
  params : List Ty
  ret : Ty
  deriving DecidableEq, Inhabited

inductive MethodOrigin where
  | source (decl : MethodDecl)
  | binary
  | copied
  /-- A method of an instantiation of a generic type. -/
  | parameterized (generic : MethodId)
  /-- Stands for the base method while a callin method runs. -/
  | surrogate (callin : MethodId)
  /-- Made for a callout whose role method is not declared. -/
  | shortCallout
  deriving Inhabited

/-- Which of its two signatures a method shows. -/
inductive View where
  | declared
  /-- With so many parameters of the weaver in front. -/
  | enhanced (extra : Nat)
  deriving DecidableEq

inductive ViewError where
  | notEnhanceable (method : String)
  | notInSourceView (method : String)
  deriving DecidableEq

def ViewError.message : ViewError → String
  | .notEnhanceable method => "method '" ++ method ++ "' has no enhanced signature"
  | .notInSourceView method => "method '" ++ method ++ "' is not in its source view"

structure Method where
  name : String
  modifiers : Modifiers
  declaring : BindingId
  typeVariables : List TypeVarId := []
  declared : MethodType
  enhanced : Option MethodType := none
  /-- How often the source view was entered and not left. -/
  viewDepth : Nat := 0
  exceptions : List Ty := []
  origin : MethodOrigin
  copySource : Option MethodId := none
  overriddenTsupers : List MethodId := []
  surrogate : Option MethodId := none
  boundBaseMethods : List MethodId := []
  span : Span := {}
  deriving Inhabited

namespace Method

def isCallin (m : Method) : Bool := m.modifiers.isCallin
def isConstructor (m : Method) : Bool := m.name == "<init>"
def isSynthetic (m : Method) : Bool := m.modifiers.isSynthetic
def hasViews (m : Method) : Bool := m.enhanced.isSome

def isCopied (m : Method) : Bool := match m.origin with
  | .copied => true
  | _ => false

def isShortCallout (m : Method) : Bool := match m.origin with
  | .shortCallout => true
  | _ => false

def isSurrogate (m : Method) : Bool := match m.origin with
  | .surrogate _ => true
  | _ => false

def isSource (m : Method) : Bool := match m.origin with
  | .source _ => true
  | _ => false

def view (m : Method) : View := match m.enhanced with
  | some enhanced =>
    if m.viewDepth = 0 then .enhanced (enhanced.params.length - m.declared.params.length)
    else .declared
  | none => .declared

def signature (m : Method) : View → MethodType
  | .declared => m.declared
  | .enhanced _ => m.enhanced.getD m.declared

def visible (m : Method) : MethodType := m.signature m.view

def inSourceView (m : Method) : Bool := m.hasViews && 0 < m.viewDepth

def enterSourceView (m : Method) : Except ViewError Method :=
  if m.hasViews then .ok { m with viewDepth := m.viewDepth + 1 }
  else .error (.notEnhanceable m.name)

def exitSourceView (m : Method) : Except ViewError Method :=
  if m.viewDepth = 0 then .error (.notInSourceView m.name)
  else .ok { m with viewDepth := m.viewDepth - 1 }

/-- The signature that is woven: the enhanced one where there is one. -/
def woven (m : Method) : MethodType := m.enhanced.getD m.declared

end Method

inductive FieldOrigin where
  | source (decl : FieldDecl)
  | binary
  | copied
  | parameterized (generic : FieldId)
  deriving Inhabited

/-- A role and the path of fields that leads to its team instance. -/
structure PendingAnchor where
  role : String
  path : List String
  deriving Inhabited

structure Field where
  name : String
  modifiers : Modifiers
  declaring : BindingId
  type : Ty
  pendingAnchor : Option PendingAnchor := none
  origin : FieldOrigin
  copySource : Option FieldId := none
  span : Span := {}
  deriving Inhabited

def Field.isFinal (f : Field) : Bool := f.modifiers.isFinal

inductive TypeVarOwner where
  | type (b : BindingId)
  | method (declaring : BindingId)
  deriving DecidableEq, Inhabited

structure TypeVar where
  name : String
  owner : TypeVarOwner
  index : Nat
  bounds : List Ty := []
  deriving Inhabited

/-- A wildcard that was opened at some place of a program. -/
structure Capture where
  wildcard : Ty
  index : Nat
  site : Span
  upper : Ty
  lower : Option Ty
  deriving Inhabited

inductive MappingKind where
  | callin (kind : CallinKind)
  | callout (kind : CalloutKind)
  deriving DecidableEq, Inhabited

def MappingKind.callin? : MappingKind → Option CallinKind
  | .callin kind => some kind
  | .callout _ => none

/-- A binding of a role method to members of its base class. -/
structure Mapping where
  role : BindingId
  kind : MappingKind
  label : Option String := none
  roleMethod : Option MethodId := none
  baseMethods : List MethodId := []
  baseField : Option FieldId := none
  paramMap : List ParamMapping := []
  surrogate : Option MethodId := none
  isOverride : Bool := false
  index : Nat
  span : Span := {}
  deriving Inhabited

def Mapping.isComplete (m : Mapping) : Bool :=
  m.roleMethod.isSome && (!m.baseMethods.isEmpty || m.baseField.isSome)

/-- The callins at a base method, in the order in which they run. -/
structure JoinPoint where
  baseMethod : MethodId
  kind : CallinKind
  order : List MappingId
  deriving Inhabited

structure PrecedenceTable where
  team : BindingId
  joinPoints : List JoinPoint := []
  deriving Inhabited

def PrecedenceTable.orderFor? (t : PrecedenceTable) (base : MethodId) (kind : CallinKind) :
    Option (List MappingId) :=
  (t.joinPoints.find? fun jp => jp.baseMethod == base && jp.kind == kind).map (·.order)

end TeamRoles
