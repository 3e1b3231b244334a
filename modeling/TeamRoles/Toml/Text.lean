import TeamRoles.Json.Parser

/-!
Strings, names and comments of TOML text. All readers take the characters after an opening mark and
give what follows the closing one.
-/

namespace TeamRoles.Toml

def isBlank (c : Char) : Bool := c == ' ' || c == '\t'

/-- The characters that strings and comments may hold on one line. -/
def isPlain (c : Char) : Bool := c == '\t' || (0x20 ≤ c.toNat && c.toNat != 0x7f)

def skipBlanks (cs : List Char) : List Char := cs.dropWhile isBlank

def newline? : List Char → Option (List Char)
  | '\n' :: rest => some rest
  | '\r' :: '\n' :: rest => some rest
  | _ => none

def skipGap (inComment : Bool) : List Char → List Char
  | [] => []
  | c :: rest =>
    if c == '\n' then skipGap false rest
    else if c == '\r' && rest.head? == some '\n' then skipGap false rest
    else if inComment then if isPlain c then skipGap true rest else c :: rest
    else if c == '#' then skipGap true rest
    else if isBlank c then skipGap false rest
    else c :: rest

/-- Blanks and a comment up to the end of a line or of the text. -/
def endOfLine? (cs : List Char) : Option (List Char) :=
  let cs := match skipBlanks cs with
    | '#' :: rest => rest.dropWhile isPlain
    | cs => cs
  if cs.isEmpty then some [] else newline? cs

/-- A character given by its code in so many hexadecimal digits. -/
def codePoint? (width : Nat) (cs : List Char) : Option (Char × List Char) := do
  let digits := cs.take width
  if digits.length < width then none
  let code ← digits.foldlM (fun n c => do return n * 16 + (← Json.hexDigit? c)) 0
  if code.isValidChar then return (Char.ofNat code, cs.drop width) else none

def escape? : List Char → Option (Char × List Char)
  | 'b' :: rest => some ('\x08', rest)
  | 't' :: rest => some ('\t', rest)
  | 'n' :: rest => some ('\n', rest)
  | 'f' :: rest => some ('\x0c', rest)
  | 'r' :: rest => some ('\r', rest)
  | '"' :: rest => some ('"', rest)
  | '\\' :: rest => some ('\\', rest)
  | 'u' :: rest => codePoint? 4 rest
  | 'U' :: rest => codePoint? 8 rest
  | _ => none

/-- A string on one line; only one in double quotes has escapes. `done` holds the characters read, last
first. -/
def line? (quote : Char) (fuel : Nat) (done : List Char) (cs : List Char) :
    Option (String × List Char) :=
  match fuel, cs with
  | 0, _ => none
  | _, [] => none
  | fuel + 1, c :: rest =>
    if c == quote then some (String.ofList done.reverse, rest)
    else if c == '\\' && quote == '"' then do
      let (c, rest) ← escape? rest
      line? quote fuel (c :: done) rest
    else if isPlain c then line? quote fuel (c :: done) rest
    else none

def skipLines : List Char → List Char
  | [] => []
  | c :: rest =>
    if isBlank c || c == '\n' || (c == '\r' && rest.head? == some '\n') then skipLines rest
    else c :: rest

/-- What follows a backslash at the end of a line: the blanks and line ends after it are skipped. -/
def continued? (cs : List Char) : Option (List Char) := do
  let rest ← newline? (skipBlanks cs)
  return skipLines rest

/-- A string over several lines. Up to two quotes may stand before the three that close it. -/
def block? (quote : Char) (fuel : Nat) (done : List Char) (cs : List Char) :
    Option (String × List Char) :=
  match fuel, cs with
  | 0, _ => none
  | _, [] => none
  | fuel + 1, c :: rest =>
    if c == quote then
      let quotes := (c :: rest).takeWhile (· == quote)
      if 3 ≤ quotes.length then
        let kept := min (quotes.length - 3) 2
        some (String.ofList (done.reverse ++ quotes.take kept), (c :: rest).drop (kept + 3))
      else block? quote fuel (c :: done) rest
    else if c == '\\' && quote == '"' then
      match continued? rest with
      | some rest => block? quote fuel done rest
      | none => do
        let (c, rest) ← escape? rest
        block? quote fuel (c :: done) rest
    else match newline? (c :: rest) with
      | some rest => block? quote fuel ('\n' :: done) rest
      | none => if isPlain c then block? quote fuel (c :: done) rest else none

/-- A string of any form. A line end right after three opening quotes does not count. -/
def string? : List Char → Option (String × List Char)
  | [] => none
  | quote :: rest =>
    if quote == '"' || quote == '\'' then
      match rest with
      | a :: b :: rest =>
        if a == quote && b == quote then
          let body := (newline? rest).getD rest
          block? quote (body.length + 1) [] body
        else line? quote (rest.length + 3) [] (a :: b :: rest)
      | rest => line? quote (rest.length + 1) [] rest
    else none

def isBare (c : Char) : Bool := c.isAlphanum || c == '_' || c == '-'

def simpleKey? : List Char → Option (String × List Char)
  | [] => none
  | c :: rest =>
    if c == '"' || c == '\'' then line? c (rest.length + 1) [] rest
    else
      let word := (c :: rest).takeWhile isBare
      if word.isEmpty then none else some (String.ofList word, (c :: rest).dropWhile isBare)

/-- Deeper names are refused, for every part is one more table. -/
def maxParts : Nat := 80

/-- The parts of a dotted name: those on the way, and the last one. -/
def dottedKey? (fuel : Nat) (before : List String) (cs : List Char) :
    Option ((List String × String) × List Char) :=
  match fuel with
  | 0 => none
  | fuel + 1 => do
    let (key, rest) ← simpleKey? (skipBlanks cs)
    match skipBlanks rest with
    | '.' :: rest => dottedKey? fuel (before ++ [key]) rest
    | rest => return ((before, key), rest)

def key? (cs : List Char) : Option ((List String × String) × List Char) :=
  dottedKey? (maxParts - 1) [] cs

end TeamRoles.Toml
