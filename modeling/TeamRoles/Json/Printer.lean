import TeamRoles.Json.Basic

/-!
Writing JSON text, on one line or indented by two blanks a level. A quote, a backslash and the
control characters are escaped, everything else stands for itself. A piece without a value is written
as `null`.
-/

namespace TeamRoles.Json

def hexChar (n : Nat) : Char := (Nat.toDigits 16 n).headD '0'

def escapeChar (c : Char) : List Char :=
  match c with
  | '"' => ['\\', '"']
  | '\\' => ['\\', '\\']
  | '\n' => ['\\', 'n']
  | '\r' => ['\\', 'r']
  | '\t' => ['\\', 't']
  | c =>
    if c == '\x08' then ['\\', 'b']
    else if c == '\x0c' then ['\\', 'f']
    else if c.toNat < 0x20 then ['\\', 'u', '0', '0', hexChar (c.toNat / 16), hexChar (c.toNat % 16)]
    else [c]

def quote (s : String) : String := "\"" ++ String.ofList (s.toList.flatMap escapeChar) ++ "\""

def intText : Int → String
  | .ofNat n => n.repr
  | .negSucc n => "-" ++ (n + 1).repr

mutual

def compact : Json → String
  | .null | .unusable => "null"
  | .bool b => if b then "true" else "false"
  | .int n => intText n
  | .decimal m e => intText m ++ "e" ++ intText e
  | .str s => quote s
  | .arr elems => "[" ++ ",".intercalate (compactElems elems) ++ "]"
  | .obj members => "\x7b" ++ ",".intercalate (compactMembers members) ++ "\x7d"

def compactElems : List Json → List String
  | [] => []
  | j :: rest => j.compact :: compactElems rest

def compactMembers : List (String × Json) → List String
  | [] => []
  | (k, v) :: rest => (quote k ++ ":" ++ v.compact) :: compactMembers rest

end

def newline (level : Nat) : String := "\n" ++ String.ofList (List.replicate (2 * level) ' ')

def block (opening closing : String) (level : Nat) : List String → String
  | [] => opening ++ closing
  | items =>
    opening ++ newline (level + 1) ++ ("," ++ newline (level + 1)).intercalate items ++
      newline level ++ closing

mutual

def prettyAt (level : Nat) : Json → String
  | .arr elems => block "[" "]" level (prettyElems (level + 1) elems)
  | .obj members => block "\x7b" "\x7d" level (prettyMembers (level + 1) members)
  | .null | .unusable => "null"
  | .bool b => if b then "true" else "false"
  | .int n => intText n
  | .decimal m e => intText m ++ "e" ++ intText e
  | .str s => quote s

def prettyElems (level : Nat) : List Json → List String
  | [] => []
  | j :: rest => j.prettyAt level :: prettyElems level rest

def prettyMembers (level : Nat) : List (String × Json) → List String
  | [] => []
  | (k, v) :: rest => (quote k ++ ": " ++ v.prettyAt level) :: prettyMembers level rest

end

def pretty (j : Json) : String := j.prettyAt 0

end TeamRoles.Json
