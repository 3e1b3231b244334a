import TeamRoles.Decl.Basic
import TeamRoles.Descriptor.Json

/-!
The JSON form of declarations. A choice without content is a string or stands for `null`, a choice with
content is an object with the choice as its only name.
-/

namespace TeamRoles

namespace Json

mutual

def depth : Json → Nat
  | .arr elems => depthElems elems + 1
  | .obj members => depthMembers members + 1
  | _ => 1

def depthElems : List Json → Nat
  | [] => 0
  | j :: rest => max j.depth (depthElems rest)

def depthMembers : List (String × Json) → Nat
  | [] => 0
  | (_, v) :: rest => max v.depth (depthMembers rest)

end

def listWith? {α : Type} (read : Json → Option α) (j : Json) : Option (List α) := do
  (← j.elems?).mapM read

def optionalWith? {α : Type} (read : Json → Option α) (j : Json) (key : String) :
    Option (Option α) := do
  match ← j.member? key with
  | none | some .null => return none
  | some v => return some (← read v)

def listField? {α : Type} (read : Json → Option α) (j : Json) (key : String) :
    Option (List α) := do
  match ← j.member? key with
  | none => return []
  | some v => v.listWith? read

end Json

mutual

def TypeSpec.ofJson? (fuel : Nat) (j : Json) : Option TypeSpec :=
  match fuel, j with
  | fuel + 1, .obj [(choice, v)] => match choice with
    | "primitive" => .primitive <$> fromJson? v
    | "named" => .named <$> v.listWith? (NameSegment.ofJson? fuel)
    | "variable" => .variable <$> fromJson? v
    | "array" => .array <$> TypeSpec.ofJson? fuel v
    | "anchored" => do
      let v := v.named ["role", "anchor"]
      return .anchored (← v.required? "role") (← v.required? "anchor")
    | _ => none
  | _, _ => none

def NameSegment.ofJson? (fuel : Nat) (j : Json) : Option NameSegment :=
  match fuel with
  | 0 => none
  | fuel + 1 => do
    let j := j.named ["name", "args"]
    return .mk (← j.required? "name") (← j.listField? (TypeArgSpec.ofJson? fuel) "args")

def TypeArgSpec.ofJson? (fuel : Nat) (j : Json) : Option TypeArgSpec :=
  match fuel, j with
  | _, .str "wildcard" | _, .obj [("wildcard", .null)] => some .wildcard
  | fuel + 1, .obj [(choice, v)] => match choice with
    | "type" => .type <$> TypeSpec.ofJson? fuel v
    | "extends" => .extends <$> TypeSpec.ofJson? fuel v
    | "super" => .super <$> TypeSpec.ofJson? fuel v
    | _ => none
  | _, _ => none

end

instance : FromJson TypeSpec := ⟨fun j => TypeSpec.ofJson? (j.depth + 1) j⟩
instance : FromJson TypeArgSpec := ⟨fun j => TypeArgSpec.ofJson? (j.depth + 1) j⟩

mutual

def TypeSpec.json : TypeSpec → Json
  | .primitive keyword => .obj [("primitive", .str keyword)]
  | .named segments => .obj [("named", .arr (segmentsJson segments))]
  | .variable name => .obj [("variable", .str name)]
  | .array component => .obj [("array", component.json)]
  | .anchored role anchor =>
    .obj [("anchored", .obj [("role", .str role), ("anchor", .str anchor)])]

def segmentsJson : List NameSegment → List Json
  | [] => []
  | .mk name args :: rest =>
    .obj [("name", .str name), ("args", .arr (typeArgsJson args))] :: segmentsJson rest

def typeArgsJson : List TypeArgSpec → List Json
  | [] => []
  | arg :: rest => arg.json :: typeArgsJson rest

def TypeArgSpec.json : TypeArgSpec → Json
  | .type t => .obj [("type", t.json)]
  | .wildcard => .str "wildcard"
  | .extends bound => .obj [("extends", bound.json)]
  | .super bound => .obj [("super", bound.json)]

end

instance : ToJson TypeSpec := ⟨TypeSpec.json⟩

def FlowNode.ofWord? : String → Option FlowNode
  | "base_call" => some .baseCall
  | "return" => some .return
  | "throw" => some .throw
  | "break" => some .break
  | "continue" => some .continue
  | "stmt" => some .stmt
  | _ => none

def FlowNode.ofJson? (fuel : Nat) (j : Json) : Option FlowNode :=
  match fuel, j with
  | _, .str choice | _, .obj [(choice, .null)] => FlowNode.ofWord? choice
  | fuel + 1, .obj [(choice, v)] => match choice with
    | "seq" => .seq <$> v.listWith? (FlowNode.ofJson? fuel)
    | "branch" => .branch <$> v.listWith? (FlowNode.ofJson? fuel)
    | "loop" => .loop <$> FlowNode.ofJson? fuel v
    | "try" => do
      let v := v.named ["body", "catches", "finally"]
      let body ← FlowNode.ofJson? fuel (← (← v.member? "body"))
      let catches ← v.listField? (FlowNode.ofJson? fuel) "catches"
      return .try body catches (← v.optionalWith? (FlowNode.ofJson? fuel) "finally")
    | _ => none
  | _, _ => none

instance : FromJson FlowNode := ⟨fun j => FlowNode.ofJson? (j.depth + 1) j⟩

mutual

def FlowNode.json : FlowNode → Json
  | .seq nodes => .obj [("seq", .arr (flowNodesJson nodes))]
  | .baseCall => .str "base_call"
  | .branch alternatives => .obj [("branch", .arr (flowNodesJson alternatives))]
  | .loop body => .obj [("loop", body.json)]
  | .return => .str "return"
  | .throw => .str "throw"
  | .break => .str "break"
  | .continue => .str "continue"
  | .try body catches cleanup =>
    .obj [("try", .obj [("body", body.json), ("catches", .arr (flowNodesJson catches)),
      ("finally", optionalFlowJson cleanup)])]
  | .stmt => .str "stmt"

def flowNodesJson : List FlowNode → List Json
  | [] => []
  | n :: rest => n.json :: flowNodesJson rest

def optionalFlowJson : Option FlowNode → Json
  | none => .null
  | some n => n.json

end

instance : ToJson FlowNode := ⟨FlowNode.json⟩

instance : FromJson ImportDecl :=
  ⟨fun j => do
    let j := j.named ["name", "on_demand", "is_static", "is_base", "span"]
    return ⟨← j.required? "name", ← j.withDefault? "on_demand" false,
      ← j.withDefault? "is_static" false, ← j.withDefault? "is_base" false,
      ← j.withDefault? "span" {}⟩⟩

instance : ToJson ImportDecl :=
  ⟨fun d => .obj [("name", toJson d.name), ("on_demand", toJson d.onDemand),
    ("is_static", toJson d.isStatic), ("is_base", toJson d.isBase), ("span", toJson d.span)]⟩

def TypeKind.ofWord? : String → Option TypeKind
  | "class" => some .plainClass
  | "interface" => some .interface
  | "enum" => some .enum
  | _ => none

instance : FromJson TypeKind := ⟨fun j => j.choice?.bind TypeKind.ofWord?⟩

instance : ToJson TypeKind where
  toJson
    | .plainClass => .str "class"
    | .interface => .str "interface"
    | .enum => .str "enum"

instance : FromJson TypeParamDecl :=
  ⟨fun j => do
    let j := j.named ["name", "bounds"]
    return ⟨← j.required? "name", ← j.withDefault? "bounds" []⟩⟩

instance : ToJson TypeParamDecl :=
  ⟨fun d => .obj [("name", toJson d.name), ("bounds", toJson d.bounds)]⟩

instance : FromJson FieldDecl :=
  ⟨fun j => do
    let j := j.named ["name", "modifiers", "ty", "span"]
    return ⟨← j.required? "name", ← j.withDefault? "modifiers" [], ← j.required? "ty",
      ← j.withDefault? "span" {}⟩⟩

instance : ToJson FieldDecl :=
  ⟨fun d => .obj [("name", toJson d.name), ("modifiers", toJson d.modifiers),
    ("ty", toJson d.type), ("span", toJson d.span)]⟩

instance : FromJson ParamDecl :=
  ⟨fun j => do
    let j := j.named ["name", "ty"]
    return ⟨← j.required? "name", ← j.required? "ty"⟩⟩

instance : ToJson ParamDecl :=
  ⟨fun d => .obj [("name", toJson d.name), ("ty", toJson d.type)]⟩

instance : FromJson MethodDecl :=
  ⟨fun j => do
    let j := j.named ["name", "modifiers", "type_params", "params", "return_type", "exceptions",
      "body_flow", "span"]
    return ⟨← j.required? "name", ← j.withDefault? "modifiers" [],
      ← j.withDefault? "type_params" [], ← j.withDefault? "params" [],
      ← j.optional? "return_type", ← j.withDefault? "exceptions" [], ← j.optional? "body_flow",
      ← j.withDefault? "span" {}⟩⟩

instance : ToJson MethodDecl :=
  ⟨fun d => .obj [("name", toJson d.name), ("modifiers", toJson d.modifiers),
    ("type_params", toJson d.typeParams), ("params", toJson d.params),
    ("return_type", toJson d.returnType), ("exceptions", toJson d.exceptions),
    ("body_flow", toJson d.bodyFlow), ("span", toJson d.span)]⟩

instance : FromJson MethodSpec :=
  ⟨fun j => do
    let j := j.named ["name", "params", "return_type"]
    return ⟨← j.required? "name", ← j.optional? "params", ← j.optional? "return_type"⟩⟩

instance : ToJson MethodSpec :=
  ⟨fun d => .obj [("name", toJson d.name), ("params", toJson d.params),
    ("return_type", toJson d.returnType)]⟩

instance : FromJson ParamMapping :=
  ⟨fun j => do
    let j := j.named ["role", "base"]
    return ⟨← j.required? "role", ← j.required? "base"⟩⟩

instance : ToJson ParamMapping :=
  ⟨fun d => .obj [("role", toJson d.role), ("base", toJson d.base)]⟩

instance : FromJson CallinDecl :=
  ⟨fun j => do
    let j := j.named ["label", "role_method", "kind", "base_methods", "param_mappings", "span"]
    return ⟨← j.optional? "label", ← j.required? "role_method", ← j.required? "kind",
      ← j.required? "base_methods", ← j.withDefault? "param_mappings" [],
      ← j.withDefault? "span" {}⟩⟩

instance : ToJson CallinDecl :=
  ⟨fun d => .obj [("label", toJson d.label), ("role_method", toJson d.roleMethod),
    ("kind", toJson d.kind), ("base_methods", toJson d.baseMethods),
    ("param_mappings", toJson d.paramMappings), ("span", toJson d.span)]⟩

instance : FromJson CalloutDecl :=
  ⟨fun j => do
    let j := j.named ["role_method", "kind", "base", "is_override", "param_mappings", "span"]
    return ⟨← j.required? "role_method", ← j.required? "kind", ← j.required? "base",
      ← j.withDefault? "is_override" false, ← j.withDefault? "param_mappings" [],
      ← j.withDefault? "span" {}⟩⟩

instance : ToJson CalloutDecl :=
  ⟨fun d => .obj [("role_method", toJson d.roleMethod), ("kind", toJson d.kind),
    ("base", toJson d.base), ("is_override", toJson d.isOverride),
    ("param_mappings", toJson d.paramMappings), ("span", toJson d.span)]⟩

instance : FromJson PrecedenceDecl :=
  ⟨fun j => do
    let j := j.named ["after", "elements", "span"]
    return ⟨← j.withDefault? "after" false, ← j.required? "elements",
      ← j.withDefault? "span" {}⟩⟩

instance : ToJson PrecedenceDecl :=
  ⟨fun d => .obj [("after", toJson d.after), ("elements", toJson d.elements),
    ("span", toJson d.span)]⟩

def TypeDecl.ofJson? (fuel : Nat) (j : Json) : Option TypeDecl :=
  match fuel with
  | 0 => none
  | fuel + 1 => do
    let j := j.named ["name", "kind", "modifiers", "type_params", "superclass", "interfaces",
      "played_by", "fields", "methods", "member_types", "callins", "callouts", "precedences",
      "span"]
    return {
      name := ← j.required? "name"
      kind := ← j.withDefault? "kind" .plainClass
      modifiers := ← j.withDefault? "modifiers" []
      typeParams := ← j.withDefault? "type_params" []
      superclass := ← j.optional? "superclass"
      interfaces := ← j.withDefault? "interfaces" []
      playedBy := ← j.optional? "played_by"
      fields := ← j.withDefault? "fields" []
      methods := ← j.withDefault? "methods" []
      memberTypes := ← j.listField? (TypeDecl.ofJson? fuel) "member_types"
      callins := ← j.withDefault? "callins" []
      callouts := ← j.withDefault? "callouts" []
      precedences := ← j.withDefault? "precedences" []
      span := ← j.withDefault? "span" {} }

instance : FromJson TypeDecl := ⟨fun j => TypeDecl.ofJson? (j.depth + 1) j⟩

mutual

def TypeDecl.json : TypeDecl → Json
  | ⟨name, kind, modifiers, typeParams, superclass, interfaces, playedBy, fields, methods,
      memberTypes, callins, callouts, precedences, span⟩ =>
    .obj [("name", toJson name), ("kind", toJson kind), ("modifiers", toJson modifiers),
      ("type_params", toJson typeParams), ("superclass", toJson superclass),
      ("interfaces", toJson interfaces), ("played_by", toJson playedBy),
      ("fields", toJson fields), ("methods", toJson methods),
      ("member_types", .arr (typeDeclsJson memberTypes)), ("callins", toJson callins),
      ("callouts", toJson callouts), ("precedences", toJson precedences), ("span", toJson span)]

def typeDeclsJson : List TypeDecl → List Json
  | [] => []
  | t :: rest => t.json :: typeDeclsJson rest

end

instance : ToJson TypeDecl := ⟨TypeDecl.json⟩

instance : FromJson UnitDecl :=
  ⟨fun j => do
    let j := j.named ["file_name", "package", "team_package", "imports", "types", "source"]
    return ⟨← j.required? "file_name", ← j.withDefault? "package" "",
      ← j.optional? "team_package", ← j.withDefault? "imports" [], ← j.withDefault? "types" [],
      ← j.optional? "source"⟩⟩

instance : ToJson UnitDecl :=
  ⟨fun d => .obj [("file_name", toJson d.fileName), ("package", toJson d.package),
    ("team_package", toJson d.teamPackage), ("imports", toJson d.imports),
    ("types", toJson d.types), ("source", toJson d.source)]⟩

end TeamRoles
