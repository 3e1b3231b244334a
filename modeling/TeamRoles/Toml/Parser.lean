import TeamRoles.Toml.Scalar
import TeamRoles.Toml.Text

/-!
Reading TOML documents.
-/

namespace TeamRoles.Toml

mutual

/-- A value; `depth` more arrays and tables may be opened. -/
def value (fuel depth : Nat) (cs : List Char) : Option (Toml × List Char) :=
  match fuel with
  | 0 => none
  | fuel + 1 => match cs with
    | '[' :: rest => if depth = 0 then none else elems fuel (depth - 1) [] rest
    | '\x7b' :: rest => if depth = 0 then none else match skipBlanks rest with
      | '\x7d' :: rest => some (.table .inline [], rest)
      | rest => members fuel (depth - 1) [] rest
    | '"' :: rest => do
      let (s, rest) ← string? ('"' :: rest)
      return (.str s, rest)
    | '\'' :: rest => do
      let (s, rest) ← string? ('\'' :: rest)
      return (.str s, rest)
    | cs => word? cs

/-- The elements of an array up to its closing bracket; `done` holds those read, last first. -/
def elems (fuel depth : Nat) (done : List Toml) (cs : List Char) : Option (Toml × List Char) :=
  match fuel with
  | 0 => none
  | fuel + 1 => match skipGap false cs with
    | ']' :: rest => some (.arr done.reverse, rest)
    | cs => do
      let (v, rest) ← value fuel depth cs
      match skipGap false rest with
      | ',' :: rest => elems fuel depth (v :: done) rest
      | ']' :: rest => return (.arr (v :: done).reverse, rest)
      | _ => none

/-- The members of a table up to its closing brace. -/
def members (fuel depth : Nat) (entries : Entries) (cs : List Char) : Option (Toml × List Char) :=
  match fuel with
  | 0 => none
  | fuel + 1 => do
    let ((path, key), rest) ← key? cs
    match rest with
    | '=' :: rest =>
      let (v, rest) ← value fuel depth (skipBlanks rest)
      let entries ← assign entries path key v
      match skipBlanks rest with
      | ',' :: rest => members fuel depth entries rest
      | '\x7d' :: rest => return (.table .inline entries, rest)
      | _ => none
    | _ => none

end

def maxDepth : Nat := 79

/-- A line of a document, which starts neither with blanks nor with a line end. -/
def line (d : Document) (cs : List Char) : Option (Document × List Char) := do
  match cs with
  | '[' :: '[' :: rest =>
    match ← key? rest with
    | ((path, key), ']' :: ']' :: rest) => return (← d.openListed path key, ← endOfLine? rest)
    | _ => none
  | '[' :: rest =>
    match ← key? rest with
    | ((path, key), ']' :: rest) => return (← d.openTable path key, ← endOfLine? rest)
    | _ => none
  | cs =>
    match ← key? cs with
    | ((path, key), '=' :: rest) =>
      let (v, rest) ← value (rest.length + 1) maxDepth (skipBlanks rest)
      return (← d.assign path key v, ← endOfLine? rest)
    | _ => none

def lines (fuel : Nat) (d : Document) (cs : List Char) : Option Document :=
  match fuel with
  | 0 => none
  | fuel + 1 => match skipBlanks cs with
    | [] => some d
    | '#' :: rest => do lines fuel d (← endOfLine? ('#' :: rest))
    | cs => match newline? cs with
      | some rest => lines fuel d rest
      | none => do
        let (d, rest) ← line d cs
        lines fuel d rest

/-- A whole document as the table that it describes. A byte order mark in front does not count. -/
def parse? (text : String) : Option Toml := do
  let cs := match text.toList with
    | '\uFEFF' :: rest => rest
    | cs => cs
  return .table .header (← lines (cs.length + 1) {} cs).root

end TeamRoles.Toml
