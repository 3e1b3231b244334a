import TeamRoles.Problem.Config
import TeamRoles.Json.Convert

/-!
Options of a binding session.
-/

namespace TeamRoles

inductive WeavingScheme where
  | dynamic | static | none
  deriving DecidableEq, Inhabited

/-- A parameter that weaving puts before those a callin method declares. -/
inductive EnhancingArg where
  | baseArg | teams | index | callinIds | boundMethodId | args
  deriving DecidableEq

def EnhancingArg.name : EnhancingArg → String
  | .baseArg => "_weave$baseArg"
  | .teams => "_weave$teams"
  | .index => "_weave$index"
  | .callinIds => "_weave$callinIds"
  | .boundMethodId => "_weave$boundMethodId"
  | .args => "_weave$args"

namespace WeavingScheme

def enhancingArgs : WeavingScheme → List EnhancingArg
  | .dynamic => [.baseArg, .teams, .index, .callinIds]
  | .static => [.baseArg, .teams, .index, .callinIds, .boundMethodId, .args]
  | .none => []

def ofWord? : String → Option WeavingScheme
  | "dynamic" => some .dynamic
  | "static" => some .static
  | "none" => some .none
  | _ => Option.none

instance : FromJson WeavingScheme := ⟨fun j => (j.choiceWith? Json.isEmpty).bind ofWord?⟩

instance : ToJson WeavingScheme where
  toJson
    | .dynamic => .str "dynamic"
    | .static => .str "static"
    | .none => .str "none"

end WeavingScheme

/-- The names under which the types the language itself relies on are found. -/
structure WellKnownNames where
  object : String := "core.Object"
  team : String := "core.Team"
  confined : String := "core.Team$Confined"
  string : String := "core.String"
  throwable : String := "core.Throwable"
  boundBase : String := "core.BoundBase"
  deriving DecidableEq, Inhabited

instance : FromJson WellKnownNames where
  fromJson? j := do
    let j := j.leading ["object", "team", "confined", "string", "throwable", "bound_base"]
    let d : WellKnownNames := {}
    return ⟨← j.withDefault? "object" d.object, ← j.withDefault? "team" d.team,
      ← j.withDefault? "confined" d.confined, ← j.withDefault? "string" d.string,
      ← j.withDefault? "throwable" d.throwable, ← j.withDefault? "bound_base" d.boundBase⟩

instance : ToJson WellKnownNames :=
  ⟨fun n => .obj [("object", toJson n.object), ("team", toJson n.team),
    ("confined", toJson n.confined), ("string", toJson n.string),
    ("throwable", toJson n.throwable), ("bound_base", toJson n.boundBase)]⟩

structure SeverityTable where
  entries : List (String × Level) := []
  deriving Inhabited

instance : FromJson SeverityTable where
  fromJson? j := do
    return ⟨← (← j.entries?).mapM fun (name, v) => do return (name, ← fromJson? v)⟩

instance : ToJson SeverityTable :=
  ⟨fun t => .obj (t.entries.map fun (name, level) => (name, toJson level))⟩

structure Options where
  weavingScheme : WeavingScheme := .dynamic
  wellKnown : WellKnownNames := {}
  implicitImports : List String := ["core"]
  severities : SeverityTable := {}
  strict : Bool := false
  deriving Inhabited

namespace Options

def severityConfig (o : Options) : Except ConfigError SeverityConfig :=
  SeverityConfig.ofTable o.severities.entries o.strict

instance : FromJson Options where
  fromJson? j := do
    let j := j.named ["weaving_scheme", "well_known", "implicit_imports", "severities", "strict"]
    let d : Options := {}
    return ⟨← j.withDefault? "weaving_scheme" d.weavingScheme,
      ← j.withDefault? "well_known" d.wellKnown,
      ← j.withDefault? "implicit_imports" d.implicitImports,
      ← j.withDefault? "severities" d.severities, ← j.withDefault? "strict" d.strict⟩

instance : ToJson Options :=
  ⟨fun o => .obj [("weaving_scheme", toJson o.weavingScheme), ("well_known", toJson o.wellKnown),
    ("implicit_imports", toJson o.implicitImports), ("severities", toJson o.severities),
    ("strict", toJson o.strict)]⟩

end Options

end TeamRoles
