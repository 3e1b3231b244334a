import TeamRoles.Json.Basic

/-!
TOML values, and the rules by which the lines of a document build its tables: no name is given a value
twice, a header opens a table once, and a dotted name extends only tables that dotted names made.
-/

namespace TeamRoles

inductive Toml.Origin where
  | inline
  | header
  /-- On the way to a table that a header opened. -/
  | parent
  | dotted
  deriving DecidableEq

inductive Toml where
  | str (s : String)
  | int (n : Int)
  /-- `mantissa * 10 ^ exponent`, or nothing for an infinity and for what is not a number. -/
  | float (value : Option (Int × Int))
  | bool (b : Bool)
  | dateTime (text : String)
  | arr (elems : List Toml)
  | table (origin : Toml.Origin) (entries : List (String × Toml))
  /-- Tables opened one after the other by headers of the same name, the latest first. -/
  | tables (elems : List Toml)
  deriving Inhabited

namespace Toml

abbrev Entries := List (String × Toml)

/-- May a dotted name go through a table of this origin? -/
def Origin.isImplicit : Origin → Bool
  | .parent | .dotted => true
  | .inline | .header => false

def replace (entries : Entries) (key : String) (v : Toml) : Entries :=
  entries.map fun (k, old) => if k == key then (k, v) else (k, old)

/-- Changes the table to which a path of names leads from a table, and makes the tables on the way. -/
def updateAt (dotted : Bool) (change : Origin → Entries → Option Entries) (origin : Origin)
    (entries : Entries) : List String → Option Entries
  | [] => change origin entries
  | key :: path => do
    match entries.lookup key with
    | none =>
      let made := if dotted then Origin.dotted else Origin.parent
      return entries ++ [(key, .table made (← updateAt dotted change made [] path))]
    | some (.table origin inner) =>
      if origin == .inline || (dotted && !origin.isImplicit) then none
      else return replace entries key (.table origin (← updateAt dotted change origin inner path))
    | some (.tables (.table origin inner :: earlier)) =>
      let latest := .table origin (← updateAt dotted change origin inner path)
      return replace entries key (.tables (latest :: earlier))
    | some _ => none

def addNew (entries : Entries) (key : String) (v : Toml) : Option Entries :=
  if (entries.lookup key).isSome then none else some (entries ++ [(key, v)])

/-- Gives a dotted name, whose last part is `key`, a value in a table. -/
def assign (entries : Entries) (path : List String) (key : String) (v : Toml) : Option Entries :=
  updateAt true (fun origin entries =>
    if (origin == .dotted) == path.isEmpty then none else addNew entries key v) .header entries path

def openTable (key : String) (entries : Entries) : Option Entries :=
  match entries.lookup key with
  | none => some (entries ++ [(key, .table .header [])])
  | some (.table .parent inner) => some (replace entries key (.table .header inner))
  | some _ => none

/-- Opens one more table of a list of tables. -/
def openListed (key : String) (entries : Entries) : Option Entries :=
  match entries.lookup key with
  | none => some (entries ++ [(key, .tables [.table .header []])])
  | some (.tables elems) => some (replace entries key (.tables (.table .header [] :: elems)))
  | some _ => none

/-- A document while it is read: its tables, and the path to the one that was opened last. -/
structure Document where
  root : Entries := []
  current : List String := []

namespace Document

def assign (d : Document) (path : List String) (key : String) (v : Toml) : Option Document := do
  let root ← updateAt false (fun _ entries => Toml.assign entries path key v) .header d.root d.current
  return { d with root }

def openTable (d : Document) (path : List String) (key : String) : Option Document := do
  let root ← updateAt false (fun _ => Toml.openTable key) .header d.root path
  return { root, current := path ++ [key] }

def openListed (d : Document) (path : List String) (key : String) : Option Document := do
  let root ← updateAt false (fun _ => Toml.openListed key) .header d.root path
  return { root, current := path ++ [key] }

end Document

mutual

/-- The value as JSON. A date or time becomes an object, because it is no plain text. -/
def json : Toml → Json
  | .str s => .str s
  | .int n => .int n
  | .float (some (mantissa, exponent)) => .decimal mantissa exponent
  | .float none => .null
  | .bool b => .bool b
  | .dateTime text => .obj [("date-time", .str text)]
  | .arr elems => .arr (jsonElems elems)
  | .table _ entries => .obj (jsonMembers entries)
  | .tables elems => .arr (jsonElems elems).reverse

def jsonElems : List Toml → List Json
  | [] => []
  | v :: rest => v.json :: jsonElems rest

def jsonMembers : List (String × Toml) → List (String × Json)
  | [] => []
  | (k, v) :: rest => (k, v.json) :: jsonMembers rest

end

end Toml

end TeamRoles
