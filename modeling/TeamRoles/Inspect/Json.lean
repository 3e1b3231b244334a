import TeamRoles.Descriptor.Json
import TeamRoles.Inspect.Text
import TeamRoles.Roles.Tsuper

/-!
What a session knows about types, members, mappings and units, as JSON.
-/

namespace TeamRoles

def Span.places (s : Span) : Json :=
  .arr [toJson s.start, toJson s.stop, toJson s.line, toJson s.column]

def MappingKind.json : MappingKind → Json
  | .callin .before => .str "callin:Before"
  | .callin .after => .str "callin:After"
  | .callin .replace => .str "callin:Replace"
  | .callout .method => .str "callout:Method"
  | .callout .get => .str "callout:Get"
  | .callout .set => .str "callout:Set"

namespace Env

def nameJson (e : Env) (b : BindingId) : Json := .str (e.binding b).name
def typeJson (e : Env) (t : Ty) : Json := .str (e.showType t)
def typesJson (e : Env) (ts : List Ty) : Json := .arr (ts.map e.typeJson)
def fieldJson (e : Env) (f : FieldId) : Json := .str (e.showField f)
def methodJson (e : Env) (m : MethodId) : Json := .str (e.showMethod m)
def mappingJson (e : Env) (m : MappingId) : Json := .str (e.mappingName m)

def namesJson (e : Env) (bs : List BindingId) : Json := .arr (bs.map e.nameJson)
def methodsJson (e : Env) (ms : List MethodId) : Json := .arr (ms.map e.methodJson)
def mappingsJson (e : Env) (ms : List MappingId) : Json := .arr (ms.map e.mappingJson)

def optionJson {α : Type} (f : α → Json) : Option α → Json
  | some a => f a
  | none => .null

def signatureJson (e : Env) (s : MethodType) : Json :=
  .obj [("params", e.typesJson s.params), ("ret", e.typeJson s.ret)]

def typeVarsJson (e : Env) (vars : List TypeVarId) : Json :=
  .arr (vars.map fun v => .obj [("var", e.typeJson (.variable v)),
    ("index", .ofNat (e.typeVar v).index), ("bounds", e.typesJson (e.typeVar v).bounds)])

def supertypeMembers (e : Env) (s : Supertypes) : List (String × Json) :=
  [("superclass", optionJson e.typeJson s.superclass), ("interfaces", e.typesJson s.interfaces)]

def originText (e : Env) (b : Binding) : String :=
  match b.origin with
  | .source _ unit => "source:" ++ (e.unit unit).decl.fileName
  | .binary _ => "binary"
  | .problem reason => "problem:" ++ reason.word

def describeBinding (e : Env) (b : BindingId) : Json :=
  let x := e.binding b
  .obj [("name", .str x.name), ("simple", .str x.simpleName), ("package", .str x.package),
    ("modifiers", .str x.modifiers.text), ("origin", .str (e.originText x)),
    ("enclosing", optionJson e.nameJson x.enclosing), ("is_team", .bool x.isTeam),
    ("is_role", .bool x.isRole), ("is_interface", .bool x.isInterface),
    ("is_problem", .bool x.isProblem), ("is_binary", .bool x.isBinary),
    ("generic", .bool x.isGeneric), ("declared_type", e.typeJson (.declared b)),
    ("role_files", optionJson (fun (t : TeamModel) =>
      .arr (t.roleFiles.map fun u => .str (e.unit u).decl.fileName)) x.team),
    ("team", optionJson e.nameJson (e.teamOf? b)),
    ("source_decl", toJson (x.decl?.map (·.name))),
    ("hierarchy_has_problems", .bool x.hierarchyHasProblems), ("span", x.span.places),
    ("state", .str x.pendingText)]

def methodOriginText (e : Env) : MethodOrigin → String
  | .source _ => "source"
  | .binary => "binary"
  | .copied => "copied"
  | .parameterized generic => "parameterized:" ++ e.showMethod generic
  | .surrogate callin => "surrogate:" ++ e.showMethod callin
  | .shortCallout => "short_callout"

def viewText : View → String
  | .declared => "declared"
  | .enhanced extra => "enhanced:" ++ extra.repr

def describeMethod (e : Env) (m : MethodId) : Json :=
  let x := e.method m
  .obj [("method", e.methodJson m), ("modifiers", .str x.modifiers.text),
    ("type_variables", e.typeVarsJson x.typeVariables), ("declared", e.signatureJson x.declared),
    ("enhanced", optionJson e.signatureJson x.enhanced), ("view", .str (viewText x.view)),
    ("exceptions", e.typesJson x.exceptions), ("origin", .str (e.methodOriginText x.origin)),
    ("copy_src", optionJson e.methodJson x.copySource),
    ("tsupers", e.methodsJson x.overriddenTsupers),
    ("surrogate", optionJson e.methodJson x.surrogate),
    ("bound_base", e.methodsJson x.boundBaseMethods),
    ("needs_team", .bool (e.needsTeamInstance m)), ("span", x.span.places)]

/-- The signatures that a method shows in its present view and when asked for either of them. -/
def describeView (e : Env) (m : MethodId) : Json :=
  let x := e.method m
  .obj [("depth", .ofNat x.viewDepth), ("in_source_view", .bool x.inSourceView),
    ("has_views", .bool x.hasViews), ("params", e.typesJson x.visible.params),
    ("ret", e.typeJson x.visible.ret), ("visible", e.signatureJson x.visible),
    ("asked_enhanced", e.signatureJson (x.signature (.enhanced 0))),
    ("asked_declared", e.signatureJson (x.signature .declared))]

def fieldOriginText (e : Env) : FieldOrigin → String
  | .source _ => "source"
  | .binary => "binary"
  | .copied => "copied"
  | .parameterized generic => "parameterized:" ++ e.showField generic

def describeField (e : Env) (f : FieldId) (type : Ty) : Json :=
  let x := e.field f
  .obj [("field", e.fieldJson f), ("modifiers", .str x.modifiers.text), ("type", e.typeJson type),
    ("origin", .str (e.fieldOriginText x.origin)), ("final", .bool x.isFinal),
    ("static", .bool x.modifiers.isStatic), ("copy_src", optionJson e.fieldJson x.copySource),
    ("span", x.span.places)]

def describeMapping (e : Env) (m : MappingId) : Json :=
  let x := e.mapping m
  .obj [("display", e.mappingJson m), ("kind", x.kind.json), ("callin", toJson x.kind.callin?),
    ("role", e.nameJson x.role), ("label", toJson x.label),
    ("role_method", optionJson e.methodJson x.roleMethod),
    ("base_methods", e.methodsJson x.baseMethods),
    ("base_field", optionJson e.fieldJson x.baseField),
    ("param_map", .arr (x.paramMap.map fun p =>
      .obj [("role", .ofNat p.role), ("base", .ofNat p.base)])),
    ("surrogate", optionJson e.methodJson x.surrogate), ("override", .bool x.isOverride),
    ("index", .ofNat x.index), ("complete", .bool x.isComplete), ("span", x.span.places)]

def describePrecedence (e : Env) (table : PrecedenceTable) : Json :=
  .obj [("team", e.nameJson table.team),
    ("join_points", .arr (table.joinPoints.map fun p =>
      .obj [("base", e.methodJson p.baseMethod), ("kind", toJson p.kind),
        ("order", e.mappingsJson p.order),
        ("found", .ofNat ((table.orderFor? p.baseMethod p.kind).getD []).length)]))]

def describeUnit (e : Env) (u : UnitId) : Json :=
  let x := e.unit u
  .obj [("file", .str x.decl.fileName), ("package", .str x.decl.package),
    ("role_file", .bool x.isRoleFile), ("has_team", .bool x.hasTeam),
    ("types", e.namesJson x.types), ("imports_resolved", .bool x.imports.isResolved),
    ("types_declared", .ofNat x.decl.types.length),
    ("qualified", toJson (References.sorted x.references.qualified)),
    ("simple", toJson (References.sorted x.references.simple)),
    ("root", toJson (References.sorted x.references.root)), ("units", .ofNat e.units.size)]

/-- The imports of a unit, and what some simple names mean by them. -/
def describeImports (e : Env) (i : Imports) (asked : List String) : Json :=
  .obj [("single_count", .ofNat i.single.length),
    ("single", .arr (asked.map fun name => optionJson e.nameJson (i.single? name))),
    ("on_demand", .arr (i.onDemand.map fun
      | .package name => .obj [("package", .str name)]
      | .type b => .obj [("type", e.nameJson b)])),
    ("base", .arr (i.base.map fun b => .arr [.str b.decl.name, e.nameJson b.binding]))]

def describeCapture (e : Env) (c : CaptureId) : Json :=
  let x := e.capture c
  .obj [("wildcard", e.typeJson x.wildcard), ("index", .ofNat x.index), ("site", x.site.places),
    ("upper", e.typeJson x.upper), ("lower", optionJson e.typeJson x.lower)]

def describeCaptures (e : Env) (t : Ty) : Json :=
  let args := match t with
    | .parameterized _ args _ => args
    | _ => []
  .obj [("type", e.typeJson t), ("name", .str (e.typeName t)),
    ("captures", .arr (args.filterMap fun
      | .captured c => some (e.describeCapture c)
      | _ => none))]

def describeType (e : Env) (t : Ty) : Json :=
  .obj [("show", e.typeJson t), ("name", .str (e.typeName t)), ("reference", .bool t.isReference),
    ("problem", .bool (e.isProblemType t)), ("binding", optionJson e.nameJson (bindingOf? t))]

end Env

end TeamRoles
