/-!
JSON values. Integers that fit into 64 bits are kept apart from all other numbers, because a field
that counts something accepts the former only. An object keeps its members as they were written,
repeated names included. Text may also be well formed and still stand for no value; such a piece does
no harm where nobody reads it.
-/

namespace TeamRoles

inductive Json where
  | null
  | bool (b : Bool)
  | int (n : Int)
  /-- A number with a fraction, an exponent or too many digits: `mantissa * 10 ^ exponent`. -/
  | decimal (mantissa exponent : Int)
  | str (s : String)
  | arr (elems : List Json)
  | obj (members : List (String × Json))
  /-- Text without a value: a number beyond the doubles, a string or a name with half a surrogate pair,
  or a container nested too deep. -/
  | unusable
  deriving Inhabited

namespace Json

/-- Members with the same name are merged: the last value wins. -/
def keepLast : List (String × Json) → List (String × Json)
  | [] => []
  | (k, v) :: rest => if rest.any (·.1 == k) then keepLast rest else (k, v) :: keepLast rest

mutual

def merge : Json → Json
  | .arr elems => .arr (mergeElems elems)
  | .obj members => .obj (keepLast (mergeMembers members))
  | j => j

def mergeElems : List Json → List Json
  | [] => []
  | j :: rest => j.merge :: mergeElems rest

def mergeMembers : List (String × Json) → List (String × Json)
  | [] => []
  | (k, v) :: rest => (k, v.merge) :: mergeMembers rest

end

mutual

def isUsable : Json → Bool
  | .arr elems => allUsable elems
  | .obj members => allMembersUsable members
  | .unusable => false
  | _ => true

def allUsable : List Json → Bool
  | [] => true
  | j :: rest => j.isUsable && allUsable rest

def allMembersUsable : List (String × Json) → Bool
  | [] => true
  | (_, v) :: rest => v.isUsable && allMembersUsable rest

end

end Json

end TeamRoles
