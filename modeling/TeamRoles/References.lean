/-!
The names a unit refers to: whole qualified names, single words, and the words that open a name.
-/

namespace TeamRoles

structure References where
  qualified : List String := []
  simple : List String := []
  root : List String := []
  deriving Inhabited

namespace References

def record (r : References) : List String → References
  | [] => r
  | first :: more => {
      qualified := if more.isEmpty then r.qualified
        else r.qualified.insert (".".intercalate (first :: more))
      simple := (first :: more).foldl (fun names name => names.insert name) r.simple
      root := r.root.insert first }

def recordQualified (r : References) (name : String) : References :=
  { r with qualified := r.qualified.insert name }

def isEmpty (r : References) : Bool := r.root.isEmpty && r.qualified.isEmpty

def sorted (names : List String) : List String := names.mergeSort (fun a b => decide (a ≤ b))

end References

end TeamRoles
