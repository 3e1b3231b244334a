import TeamRoles.Problem.Id

/-!
Severity configuration: a table of overrides by problem name, and a switch that turns warnings into
errors.
-/

namespace TeamRoles

inductive ConfigError where
  | unknownProblem (name : String)
  | deprecatedProblem (name : String)
  deriving DecidableEq

def ConfigError.message : ConfigError → String
  | .unknownProblem name => "unknown problem name '" ++ name ++ "'"
  | .deprecatedProblem name =>
    "problem '" ++ name ++ "' is deprecated and can no longer be configured"

structure SeverityConfig where
  overrides : List (ProblemId × Option Severity) := []
  strict : Bool := false
  deriving Inhabited

namespace SeverityConfig

def set (c : SeverityConfig) (p : ProblemId) (s : Option Severity) : SeverityConfig :=
  { c with overrides := (p, s) :: c.overrides }

def addLevel (c : SeverityConfig) (name : String) (level : Level) :
    Except ConfigError SeverityConfig :=
  match ProblemId.ofName? name with
  | none => .error (.unknownProblem name)
  | some p =>
    if p.isDeprecated then .error (.deprecatedProblem name) else .ok (c.set p level.severity?)

def ofTable (table : List (String × Level)) (strict : Bool) : Except ConfigError SeverityConfig :=
  table.foldlM (fun c (name, level) => c.addLevel name level) { strict }

/-- The severity a problem is reported with; `none` if it is ignored. -/
def effective? (c : SeverityConfig) (p : ProblemId) : Option Severity := do
  let s ← (c.overrides.lookup p).getD (some p.defaultSeverity)
  if c.strict && s == .warning then return .error else return s

end SeverityConfig

end TeamRoles
