import TeamRoles.Json.Basic

/-!
Reading JSON text. Containers nest at most 127 deep, a number must not exceed the largest double, and
escaped surrogates must come in pairs. What offends against this alone is read as a piece without a
value.
-/

namespace TeamRoles.Json

def isBlank (c : Char) : Bool := c == ' ' || c == '\n' || c == '\t' || c == '\r'

def skipBlanks (cs : List Char) : List Char := cs.dropWhile isBlank

def hexDigit? (c : Char) : Option Nat :=
  if c.isDigit then some (c.toNat - '0'.toNat)
  else if 'a' ≤ c ∧ c ≤ 'f' then some (c.toNat - 'a'.toNat + 10)
  else if 'A' ≤ c ∧ c ≤ 'F' then some (c.toNat - 'A'.toNat + 10)
  else none

def codeUnit? : List Char → Option (Nat × List Char)
  | a :: b :: c :: d :: rest => do
    return ((((← hexDigit? a) * 16 + (← hexDigit? b)) * 16 + (← hexDigit? c)) * 16 + (← hexDigit? d), rest)
  | _ => none

def isLeading (unit : Nat) : Bool := 0xD800 ≤ unit && unit ≤ 0xDBFF

def isTrailing (unit : Nat) : Bool := 0xDC00 ≤ unit && unit ≤ 0xDFFF

def trailing? : List Char → Option (Nat × List Char)
  | '\\' :: 'u' :: rest => (codeUnit? rest).filter (isTrailing ·.1)
  | _ => none

/-- What follows a backslash inside a string. Half a surrogate pair is no character. -/
def escape? : List Char → Option (Option Char × List Char)
  | '"' :: rest => some ('"', rest)
  | '\\' :: rest => some ('\\', rest)
  | '/' :: rest => some ('/', rest)
  | 'b' :: rest => some ('\x08', rest)
  | 'f' :: rest => some ('\x0c', rest)
  | 'n' :: rest => some ('\n', rest)
  | 'r' :: rest => some ('\r', rest)
  | 't' :: rest => some ('\t', rest)
  | 'u' :: rest => do
    let (unit, rest) ← codeUnit? rest
    if isTrailing unit then return (none, rest)
    else if isLeading unit then match trailing? rest with
      | some (low, rest) =>
        return (some (Char.ofNat (0x10000 + (unit - 0xD800) * 0x400 + (low - 0xDC00))), rest)
      | none => return (none, rest)
    else return (some (Char.ofNat unit), rest)
  | _ => none

/-- The rest of a string after its opening quote; `done` holds the characters read, last first, as long
as all of them are characters. -/
def stringBody (fuel : Nat) (done : Option (List Char)) (cs : List Char) :
    Option (Option String × List Char) :=
  match fuel, cs with
  | 0, _ => none
  | _, [] => none
  | _, '"' :: rest => some (done.map fun read => String.ofList read.reverse, rest)
  | fuel + 1, '\\' :: rest => do
    let (c, rest) ← escape? rest
    stringBody fuel (do return (← c) :: (← done)) rest
  | fuel + 1, c :: rest =>
    if c.toNat < 0x20 then none else stringBody fuel (done.map (c :: ·)) rest

/-- The name of a member with its colon. -/
def memberName? (fuel : Nat) (cs : List Char) : Option (Option String × List Char) :=
  match skipBlanks cs with
  | '"' :: rest => do
    let (name, rest) ← stringBody fuel (some []) rest
    match skipBlanks rest with
    | ':' :: rest => return (name, rest)
    | _ => none
  | _ => none

def digits (cs : List Char) : List Char × List Char :=
  (cs.takeWhile Char.isDigit, cs.dropWhile Char.isDigit)

def digitValue (d : Char) : Nat := d.toNat - '0'.toNat

def digitsValue (ds : List Char) : Nat := ds.foldl (fun n d => n * 10 + digitValue d) 0

/-- Adds digits to a number while it fits into 64 bits, and gives the digits that are left over. -/
def absorb (n : Nat) : List Char → Nat × List Char
  | [] => (n, [])
  | d :: ds =>
    if n * 10 + digitValue d < UInt64.size then absorb (n * 10 + digitValue d) ds else (n, d :: ds)

/-- The nearest number with 53 significant bits; of two, the one with the even last bit. -/
def toDouble (n : Nat) : Nat :=
  let unit := Nat.pow 2 (n.log2 - 52)
  let count := n / unit
  let excess := 2 * (n % unit)
  if unit < excess || (unit == excess && count % 2 == 1) then (count + 1) * unit else count * unit

/-- The least number that rounds to no finite double. -/
def overflow : Nat := Nat.pow 2 1024 - Nat.pow 2 970

/-- Is the product of two doubles, `n` and a power of ten, a finite double? -/
def isFinite (n : Nat) (exponent : Int) : Bool :=
  n == 0 || exponent < 0 ||
    (exponent ≤ 308 && toDouble n * toDouble (Nat.pow 10 exponent.toNat) < overflow)

/-- Is the number with these digits before and behind its point finite? It is computed from the leading
digits, as many as fit into 64 bits, and a power of ten for the place of the last of them. -/
def isDouble (whole frac : List Char) (exponent : Int) : Bool :=
  let (n, left) := absorb 0 whole
  let (m, unread) := absorb n frac
  isFinite m (exponent + left.length + unread.length - frac.length)

def fraction? : List Char → Option (List Char × List Char)
  | '.' :: rest =>
    let (ds, rest) := digits rest
    if ds.isEmpty then none else some (ds, rest)
  | cs => some ([], cs)

def exponent? : List Char → Option (Option Int × List Char)
  | c :: rest =>
    if c == 'e' || c == 'E' then
      let (negative, rest) := match rest with
        | '-' :: rest => (true, rest)
        | '+' :: rest => (false, rest)
        | rest => (false, rest)
      let (ds, rest) := digits rest
      let n : Int := digitsValue ds
      if ds.isEmpty then none else some (some (if negative then -n else n), rest)
    else some (none, c :: rest)
  | [] => some (none, [])

def number? (cs : List Char) : Option (Json × List Char) := do
  let (negative, cs) := match cs with
    | '-' :: rest => (true, rest)
    | cs => (false, cs)
  let (whole, cs) := digits cs
  if whole.isEmpty || (whole.head? == some '0' && whole.length > 1) then none
  let (frac, cs) ← fraction? cs
  let (exp, cs) ← exponent? cs
  let size := digitsValue (whole ++ frac)
  let signed : Int := if negative then -size else size
  let fits := if negative then 0 < size && size ≤ UInt64.size / 2 else size < UInt64.size
  if frac.isEmpty && exp.isNone && fits then
    return (.int signed, cs)
  else if isDouble whole frac (exp.getD 0) then
    return (.decimal signed (exp.getD 0 - frac.length), cs)
  else return (.unusable, cs)

def scalar? (fuel : Nat) (cs : List Char) : Option (Json × List Char) :=
  match cs with
  | 'n' :: 'u' :: 'l' :: 'l' :: rest => some (.null, rest)
  | 't' :: 'r' :: 'u' :: 'e' :: rest => some (.bool true, rest)
  | 'f' :: 'a' :: 'l' :: 's' :: 'e' :: rest => some (.bool false, rest)
  | '"' :: rest => do
    let (s, rest) ← stringBody fuel (some []) rest
    return (s.elim .unusable .str, rest)
  | cs => number? cs

inductive Frame where
  | arr | obj

/-- What follows the value at hand and the containers around it. All of it is well formed, to any depth,
but nothing of it is kept. If `behind`, the value has just ended. -/
def skip (fuel : Nat) (behind : Bool) (frames : List Frame) (cs : List Char) :
    Option (List Char) :=
  match fuel, behind, frames with
  | _, true, [] => some cs
  | 0, _, _ => none
  | fuel + 1, true, frame :: outer => match frame, skipBlanks cs with
    | .arr, ',' :: rest => skip fuel false (.arr :: outer) rest
    | .arr, ']' :: rest => skip fuel true outer rest
    | .obj, ',' :: rest => do skip fuel false (.obj :: outer) (← memberName? fuel rest).2
    | .obj, '\x7d' :: rest => skip fuel true outer rest
    | _, _ => none
  | fuel + 1, false, frames => match skipBlanks cs with
    | '[' :: rest => match skipBlanks rest with
      | ']' :: rest => skip fuel true frames rest
      | rest => skip fuel false (.arr :: frames) rest
    | '\x7b' :: rest => match skipBlanks rest with
      | '\x7d' :: rest => skip fuel true frames rest
      | rest => do skip fuel false (.obj :: frames) (← memberName? fuel rest).2
    | cs => do skip fuel true frames (← scalar? fuel cs).2

/-- Names and values as an object, unless one of the names is none. -/
def ofMembers (members : List (Option String × Json)) : Json :=
  match members.mapM fun (member : Option String × Json) => member.1.map (·, member.2) with
  | some named => .obj named
  | none => .unusable

mutual

/-- A value after blanks; `depth` more containers may be opened. -/
def value (fuel depth : Nat) (cs : List Char) : Option (Json × List Char) :=
  match fuel with
  | 0 => none
  | fuel + 1 => match skipBlanks cs with
    | '[' :: rest =>
      if depth = 0 then return (.unusable, ← skip fuel false [] cs)
      else match skipBlanks rest with
        | ']' :: rest => some (.arr [], rest)
        | rest => elems fuel (depth - 1) [] rest
    | '\x7b' :: rest =>
      if depth = 0 then return (.unusable, ← skip fuel false [] cs)
      else match skipBlanks rest with
        | '\x7d' :: rest => some (.obj [], rest)
        | rest => members fuel (depth - 1) [] rest
    | rest => scalar? fuel rest

/-- The elements of an array up to its closing bracket; `done` holds those read, last first. -/
def elems (fuel depth : Nat) (done : List Json) (cs : List Char) : Option (Json × List Char) :=
  match fuel with
  | 0 => none
  | fuel + 1 => do
    let (v, rest) ← value fuel depth cs
    match skipBlanks rest with
    | ',' :: rest => elems fuel depth (v :: done) rest
    | ']' :: rest => return (.arr (v :: done).reverse, rest)
    | _ => none

/-- The members of an object up to its closing brace; `done` holds those read, last first. -/
def members (fuel depth : Nat) (done : List (Option String × Json)) (cs : List Char) :
    Option (Json × List Char) :=
  match fuel with
  | 0 => none
  | fuel + 1 => do
    let (name, rest) ← memberName? fuel cs
    let (v, rest) ← value fuel depth rest
    match skipBlanks rest with
    | ',' :: rest => members fuel depth ((name, v) :: done) rest
    | '\x7d' :: rest => return (ofMembers ((name, v) :: done).reverse, rest)
    | _ => none

end

def maxDepth : Nat := 127

/-- A whole text as one value, pieces of which may have none. The length of the text bounds the number of
steps: a container takes two of them for its two brackets, everything else takes a character or more
for each. -/
def read? (text : String) : Option Json := do
  let cs := text.toList
  let (v, rest) ← value (cs.length + 1) maxDepth cs
  if rest.all isBlank then return v else none

def parse? (text : String) : Option Json := (read? text).filter isUsable

end TeamRoles.Json
