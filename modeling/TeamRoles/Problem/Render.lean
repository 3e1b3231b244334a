import TeamRoles.Problem.Sink

/-!
Problems as they are shown: a heading, and a label into a source text where the place is known.
-/

namespace TeamRoles

/-- Source texts by file name; a name that is registered again gets a new number. -/
structure Sources where
  files : Array (String × String) := #[]

namespace Sources

def add (s : Sources) (name text : String) : Sources := ⟨s.files.push (name, text)⟩

def find? (s : Sources) (name : String) : Option Nat :=
  (List.range s.files.size).reverse.find? fun i => (s.files[i]?.map (·.1)) == some name

end Sources

structure Label where
  file : Nat
  start : Nat
  stop : Nat
  deriving DecidableEq

structure Notice where
  severity : Severity
  code : String
  message : String
  labels : List Label := []
  notes : List String := []

namespace Problem

/-- A place in a known text becomes a label, otherwise the file is only named. -/
def notice (p : Problem) (sources : Sources) : Notice :=
  let base : Notice := { severity := p.severity, code := p.id.text, message := p.headline }
  let inFile := { base with notes := p.file.toList.map ("in " ++ ·) }
  match p.file.bind sources.find? with
  | some file =>
    if p.span.isEmpty then inFile
    else { base with labels := [⟨file, p.span.start.toNat, p.span.stop.toNat⟩] }
  | none => inFile

end Problem

end TeamRoles
