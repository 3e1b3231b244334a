import TeamRoles.Descriptor.Basic

/-!
The JSON form of descriptors.
-/

namespace TeamRoles

namespace CallinKind

def word : CallinKind → String
  | .before => "before"
  | .after => "after"
  | .replace => "replace"

instance : ToJson CallinKind := ⟨fun k => .str k.word⟩

def ofWord? : String → Option CallinKind
  | "before" => some .before
  | "after" => some .after
  | "replace" => some .replace
  | _ => none

instance : FromJson CallinKind := ⟨fun j => j.choice?.bind ofWord?⟩

end CallinKind

namespace CalloutKind

def word : CalloutKind → String
  | .method => "method"
  | .get => "get"
  | .set => "set"

instance : ToJson CalloutKind := ⟨fun k => .str k.word⟩

def ofWord? : String → Option CalloutKind
  | "method" => some .method
  | "get" => some .get
  | "set" => some .set
  | _ => none

instance : FromJson CalloutKind := ⟨fun j => j.choice?.bind ofWord?⟩

end CalloutKind

namespace Descriptor

/-- The choice of a record: an empty object also stands for nothing. -/
def recordChoice? (j : Json) (key : String) : Option String := do
  (← (← j.member? key)).choiceWith? fun
    | .null | .obj [] => true
    | _ => false

instance : FromJson BaseMethodRef :=
  ⟨fun j => do
    let j := j.named ["name", "signature"]
    return ⟨← j.required? "name", ← j.required? "signature"⟩⟩

instance : ToJson BaseMethodRef :=
  ⟨fun r => .obj [("name", toJson r.name), ("signature", toJson r.signature)]⟩

instance : FromJson CallinRecord :=
  ⟨fun j => do
    let j := j.named ["label", "role_method", "role_signature", "kind", "base_methods"]
    return ⟨← j.required? "label", ← j.required? "role_method", ← j.required? "role_signature",
      ← CallinKind.ofWord? (← recordChoice? j "kind"), ← j.required? "base_methods"⟩⟩

instance : ToJson CallinRecord :=
  ⟨fun r => .obj [("label", toJson r.label), ("role_method", toJson r.roleMethod),
    ("role_signature", toJson r.roleSignature), ("kind", toJson r.kind),
    ("base_methods", toJson r.baseMethods)]⟩

instance : FromJson CalloutRecord :=
  ⟨fun j => do
    let j := j.named ["role_method", "role_signature", "kind", "base_member", "base_signature"]
    return ⟨← j.required? "role_method", ← j.required? "role_signature",
      ← CalloutKind.ofWord? (← recordChoice? j "kind"), ← j.required? "base_member",
      ← j.required? "base_signature"⟩⟩

instance : ToJson CalloutRecord :=
  ⟨fun r => .obj [("role_method", toJson r.roleMethod), ("role_signature", toJson r.roleSignature),
    ("kind", toJson r.kind), ("base_member", toJson r.baseMember),
    ("base_signature", toJson r.baseSignature)]⟩

instance : FromJson AnchorRecord :=
  ⟨fun j => do
    let j := j.named ["member", "anchor_path"]
    return ⟨← j.required? "member", ← j.required? "anchor_path"⟩⟩

instance : ToJson AnchorRecord :=
  ⟨fun r => .obj [("member", toJson r.member), ("anchor_path", toJson r.path)]⟩

instance : FromJson PrecedenceRecord :=
  ⟨fun j => do
    let j := j.named ["after", "labels"]
    return ⟨← j.required? "after", ← j.required? "labels"⟩⟩

instance : ToJson PrecedenceRecord :=
  ⟨fun r => .obj [("after", toJson r.after), ("labels", toJson r.labels)]⟩

instance : FromJson Attributes :=
  ⟨fun j => do
    let j := j.named ["flags", "base_class", "callins", "callouts", "anchors", "calls_base_ctor",
      "precedences"]
    return ⟨← j.required? "flags", ← j.optional? "base_class", ← j.withDefault? "callins" [],
      ← j.withDefault? "callouts" [], ← j.withDefault? "anchors" [],
      ← j.withDefault? "calls_base_ctor" [], ← j.withDefault? "precedences" []⟩⟩

def Attributes.members (a : Attributes) : List (String × Json) :=
  [("flags", toJson a.flags), ("base_class", toJson a.baseClass), ("callins", toJson a.callins),
    ("callouts", toJson a.callouts), ("anchors", toJson a.anchors),
    ("calls_base_ctor", toJson a.callsBaseConstructor), ("precedences", toJson a.precedences)]

/-- An extension in a state, whose content is a record or the list of its fields. -/
def Extension.ofContent? (state : String) (content : Json) : Option Extension := do
  match state, content with
  | "absent", .arr [] | "absent", .obj _ => return .absent
  | "v1", .arr [] | "v1", .arr [_] => none
  | "v1", _ => return .v1 (← fromJson? content)
  | "unsupported", _ =>
    let content := content.named ["version", "body"]
    return .unsupported (← content.required? "version") (← content.required? "body")
  | "corrupt", _ =>
    let content := content.named ["version", "reason", "body"]
    return .corrupt (← content.required? "version") (← content.required? "reason")
      (← content.required? "body")
  | _, _ => none

/-- All of an extension must be usable, even what no field reads. -/
instance : FromJson Extension where
  fromJson? j := do
    if !j.isUsable then none
    match j with
    | .arr (.str state :: content) => Extension.ofContent? state (.arr content)
    | _ => Extension.ofContent? (← j.required? "state") j

instance : ToJson Extension where
  toJson
    | .absent => .obj [("state", .str "absent")]
    | .v1 a => .obj (("state", .str "v1") :: a.members)
    | .unsupported version body =>
      .obj [("state", .str "unsupported"), ("version", toJson version), ("body", toJson body)]
    | .corrupt version reason body =>
      .obj [("state", .str "corrupt"), ("version", toJson version), ("reason", toJson reason),
        ("body", toJson body)]

instance : FromJson Member :=
  ⟨fun j => do
    let j := j.named ["name", "modifiers", "signature"]
    return ⟨← j.required? "name", ← j.withDefault? "modifiers" .none, ← j.required? "signature"⟩⟩

instance : ToJson Member :=
  ⟨fun m => .obj [("name", toJson m.name), ("modifiers", toJson m.modifiers),
    ("signature", toJson m.signature)]⟩

instance : FromJson Descriptor where
  fromJson? j := do
    let j := j.named ["name", "modifiers", "signature", "superclass", "interfaces", "enclosing",
      "member_types", "fields", "methods", "extension"]
    let outline : Outline := {
      name := ← j.required? "name"
      modifiers := ← j.withDefault? "modifiers" .none
      signature := ← j.optional? "signature"
      superclass := ← j.optional? "superclass"
      interfaces := ← j.withDefault? "interfaces" []
      enclosing := ← j.optional? "enclosing"
      memberTypes := ← j.withDefault? "member_types" []
      fields := ← j.withDefault? "fields" []
      methods := ← j.withDefault? "methods" [] }
    return { toOutline := outline, extension := ← j.withDefault? "extension" .absent }

instance : ToJson Descriptor :=
  ⟨fun d => .obj [("name", toJson d.name), ("modifiers", toJson d.modifiers),
    ("signature", toJson d.signature), ("superclass", toJson d.superclass),
    ("interfaces", toJson d.interfaces), ("enclosing", toJson d.enclosing),
    ("member_types", toJson d.memberTypes), ("fields", toJson d.fields),
    ("methods", toJson d.methods), ("extension", toJson d.extension)]⟩

end Descriptor

end TeamRoles
