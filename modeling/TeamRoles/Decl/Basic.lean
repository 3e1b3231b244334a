import TeamRoles.Descriptor.Extension
import TeamRoles.Modifiers
import TeamRoles.Problem.Sink
import TeamRoles.Signature.Basic

/-!
Declarations as they are written in source units.
-/

namespace TeamRoles

mutual

inductive TypeSpec where
  | primitive (keyword : String)
  | named (segments : List NameSegment)
  | variable (name : String)
  | array (component : TypeSpec)
  /-- A role of the team instance that a path of fields leads to. -/
  | anchored (role anchor : String)

inductive NameSegment where
  | mk (name : String) (args : List TypeArgSpec)

inductive TypeArgSpec where
  | type (t : TypeSpec)
  | wildcard
  | extends (bound : TypeSpec)
  | super (bound : TypeSpec)

end

namespace NameSegment

def name : NameSegment → String
  | .mk name _ => name

def args : NameSegment → List TypeArgSpec
  | .mk _ args => args

end NameSegment

def splitDots (s : String) : List String := (s.toList.splitOn '.').map String.ofList

namespace TypeSpec

instance : Inhabited TypeSpec := ⟨.named []⟩

def ofName (name : String) : TypeSpec := .named ((splitDots name).map (.mk · []))

/-- A dotted name whose last segment has arguments. -/
def generic (name : String) (args : List TypeArgSpec) : TypeSpec :=
  let names := splitDots name
  .named (names.dropLast.map (.mk · []) ++ names.getLast?.toList.map (.mk · args))

def baseType? : TypeSpec → Option BaseType
  | .primitive keyword => BaseType.ofKeyword? keyword
  | _ => none

/-- The reference as problems show it, without arguments. -/
def display : TypeSpec → String
  | .primitive keyword => keyword
  | .named segments => ".".intercalate (segments.map NameSegment.name)
  | .variable name => name
  | .array component => component.display ++ "[]"
  | .anchored role anchor => role ++ "<@" ++ anchor ++ ">"

end TypeSpec

/-- The part of a method body that decides how often the base method is called. -/
inductive FlowNode where
  | seq (nodes : List FlowNode)
  | baseCall
  | branch (alternatives : List FlowNode)
  | loop (body : FlowNode)
  | return
  | throw
  | break
  | continue
  | try (body : FlowNode) (catches : List FlowNode) (cleanup : Option FlowNode)
  | stmt
  deriving Inhabited

structure ImportDecl where
  name : String
  onDemand : Bool := false
  isStatic : Bool := false
  isBase : Bool := false
  span : Span := {}
  deriving Inhabited

inductive TypeKind where
  | plainClass | interface | enum
  deriving DecidableEq, Inhabited

structure TypeParamDecl where
  name : String
  bounds : List TypeSpec := []
  deriving Inhabited

structure FieldDecl where
  name : String
  modifiers : List Keyword := []
  type : TypeSpec
  span : Span := {}
  deriving Inhabited

structure ParamDecl where
  name : String
  type : TypeSpec
  deriving Inhabited

structure MethodDecl where
  name : String
  modifiers : List Keyword := []
  typeParams : List TypeParamDecl := []
  params : List ParamDecl := []
  returnType : Option TypeSpec := none
  exceptions : List TypeSpec := []
  bodyFlow : Option FlowNode := none
  span : Span := {}
  deriving Inhabited

/-- Names a method; without parameters any overload of that name is meant. -/
structure MethodSpec where
  name : String
  params : Option (List TypeSpec) := none
  returnType : Option TypeSpec := none
  deriving Inhabited

/-- The role parameter at `role` takes the base value at `base`. -/
structure ParamMapping where
  role : Nat
  base : Nat
  deriving DecidableEq, Inhabited

structure CallinDecl where
  label : Option String := none
  roleMethod : MethodSpec
  kind : CallinKind
  baseMethods : List MethodSpec
  paramMappings : List ParamMapping := []
  span : Span := {}
  deriving Inhabited

structure CalloutDecl where
  roleMethod : MethodSpec
  kind : CalloutKind
  base : MethodSpec
  isOverride : Bool := false
  paramMappings : List ParamMapping := []
  span : Span := {}
  deriving Inhabited

/-- An order of callins; an `after` list applies to after callins only, and backwards. -/
structure PrecedenceDecl where
  after : Bool := false
  elements : List String
  span : Span := {}
  deriving Inhabited

structure TypeDecl where
  name : String
  kind : TypeKind := .plainClass
  modifiers : List Keyword := []
  typeParams : List TypeParamDecl := []
  superclass : Option TypeSpec := none
  interfaces : List TypeSpec := []
  playedBy : Option TypeSpec := none
  fields : List FieldDecl := []
  methods : List MethodDecl := []
  memberTypes : List TypeDecl := []
  callins : List CallinDecl := []
  callouts : List CalloutDecl := []
  precedences : List PrecedenceDecl := []
  span : Span := {}
  deriving Inhabited

def TypeKind.modifiers : TypeKind → Modifiers
  | .plainClass => .none
  | .interface => Modifiers.interface.union .abstract
  | .enum => .enum

def TypeDecl.modifierBits (t : TypeDecl) : Modifiers :=
  (Modifiers.ofKeywords t.modifiers).union t.kind.modifiers

structure UnitDecl where
  fileName : String
  package : String := ""
  /-- The team whose roles the unit declares, if it is a role file. -/
  teamPackage : Option String := none
  imports : List ImportDecl := []
  types : List TypeDecl := []
  source : Option String := none
  deriving Inhabited

namespace UnitDecl

/-- The file name up to its last dot. -/
def fileStem (u : UnitDecl) : String :=
  if u.fileName.toList.contains '.' then
    String.ofList ((u.fileName.toList.reverse.dropWhile (· != '.')).drop 1).reverse
  else u.fileName

def effectivePackage (u : UnitDecl) : String := u.teamPackage.getD u.package

end UnitDecl

end TeamRoles
