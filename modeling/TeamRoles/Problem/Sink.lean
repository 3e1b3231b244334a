import TeamRoles.Problem.Config

/-!
Reported problems, in the order of their reports.
-/

namespace TeamRoles

/-- A piece of a source text: byte offsets, and line and column of its start. -/
structure Span where
  start : UInt32 := 0
  stop : UInt32 := 0
  line : UInt32 := 0
  column : UInt32 := 0
  deriving DecidableEq, Inhabited

namespace Span

def isEmpty (s : Span) : Bool := s.start == s.stop

instance : FromJson Span :=
  ⟨fun j => do
    let j := j.named ["start", "end", "line", "column"]
    return ⟨← j.required? "start", ← j.required? "end", ← j.withDefault? "line" 0,
      ← j.withDefault? "column" 0⟩⟩

instance : ToJson Span :=
  ⟨fun s => .obj [("start", toJson s.start), ("end", toJson s.stop), ("line", toJson s.line),
    ("column", toJson s.column)]⟩

end Span

structure Problem where
  id : ProblemId
  severity : Severity
  file : Option String
  span : Span
  arguments : List String
  deriving DecidableEq, Inhabited

namespace Problem

def isError (p : Problem) : Bool := p.severity == .error

def headline (p : Problem) : String :=
  p.id.name ++ if p.arguments.isEmpty then "" else ": " ++ ", ".intercalate p.arguments

def text (p : Problem) : String := p.severity.word ++ " [" ++ p.id.text ++ "] " ++ p.headline

instance : ToJson Problem :=
  ⟨fun p => .obj [("id", toJson p.id.value), ("name", toJson p.id.name),
    ("severity", toJson p.severity), ("file", toJson p.file), ("start", toJson p.span.start),
    ("end", toJson p.span.stop), ("line", toJson p.span.line), ("column", toJson p.span.column),
    ("arguments", toJson p.arguments)]⟩

end Problem

structure Diagnostics where
  config : SeverityConfig := {}
  problems : Array Problem := #[]
  currentFile : Option String := none
  deriving Inhabited

namespace Diagnostics

/-- The problem that a report adds; deprecated and ignored ones add nothing. -/
def toReport? (d : Diagnostics) (id : ProblemId) (span : Span) (arguments : List String) :
    Option Problem := do
  if id.isDeprecated then none
  let severity ← d.config.effective? id
  return { id, severity, file := d.currentFile, span, arguments }

def report (d : Diagnostics) (id : ProblemId) (span : Span) (arguments : List String) :
    Diagnostics :=
  match d.toReport? id span arguments with
  | some p => { d with problems := d.problems.push p }
  | none => d

def setFile (d : Diagnostics) (file : Option String) : Diagnostics := { d with currentFile := file }

def withId (d : Diagnostics) (id : ProblemId) : List Problem :=
  d.problems.toList.filter (·.id == id)

def errorCount (d : Diagnostics) : Nat := d.problems.toList.countP Problem.isError

def hasErrors (d : Diagnostics) : Bool := 0 < d.errorCount

end Diagnostics

end TeamRoles
