import TeamRoles.Json.Convert

/-!
How much a problem weighs, and the weight a configuration may give it.
-/

namespace TeamRoles

inductive Severity where
  | info | warning | error
  deriving DecidableEq, Inhabited

namespace Severity

def word : Severity → String
  | .info => "info"
  | .warning => "warning"
  | .error => "error"

instance : ToJson Severity := ⟨fun s => .str s.word⟩

def ofWord? : String → Option Severity
  | "info" => some .info
  | "warning" => some .warning
  | "error" => some .error
  | _ => none

instance : FromJson Severity := ⟨fun j => j.choice?.bind ofWord?⟩

end Severity

/-- A configured severity; an ignored problem is not reported at all. -/
inductive Level where
  | severity (s : Severity)
  | ignore
  deriving DecidableEq

namespace Level

def severity? : Level → Option Severity
  | .severity s => some s
  | .ignore => none

instance : ToJson Level where
  toJson
    | .severity s => toJson s
    | .ignore => .str "ignore"

def ofWord? : String → Option Level
  | "ignore" => some .ignore
  | word => (Severity.ofWord? word).map .severity

instance : FromJson Level := ⟨fun j => (j.choiceWith? Json.isEmpty).bind ofWord?⟩

end Level

end TeamRoles
