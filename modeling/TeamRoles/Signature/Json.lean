import TeamRoles.Json.Convert
import TeamRoles.Signature.Basic

/-!
Signatures as JSON, for reading by programs.
-/

namespace TeamRoles.Signature

mutual

def TypeSig.json : TypeSig → Json
  | .base b => .obj [("base", .str b.keyword)]
  | .var name => .obj [("var", .str name)]
  | .array component => .obj [("array", component.json)]
  | .cls segments => .obj [("class", .str (ClassType.mk segments).qualifiedName),
      ("segments", .arr (segmentsJson segments)),
      ("inner_args", .ofNat (ClassType.mk segments).args.length)]

def segmentsJson : List Segment → List Json
  | [] => []
  | .mk name args :: rest =>
    .obj [("name", .str name), ("args", .arr (argsJson args))] :: segmentsJson rest

def argsJson : List TypeArg → List Json
  | [] => []
  | a :: rest => a.json :: argsJson rest

def TypeArg.json : TypeArg → Json
  | .any => .str "any"
  | .extends t => .obj [("extends", t.json)]
  | .super t => .obj [("super", t.json)]
  | .exact t => .obj [("exact", t.json)]

end

instance : ToJson TypeSig := ⟨TypeSig.json⟩
instance : ToJson ClassType := ⟨fun c => toJson c.toTypeSig⟩

instance : ToJson Formal :=
  ⟨fun p => .obj [("name", .str p.name), ("class_bound", toJson p.classBound),
    ("interface_bounds", toJson p.interfaceBounds), ("bounds", .ofNat p.bounds.length)]⟩

end TeamRoles.Signature
