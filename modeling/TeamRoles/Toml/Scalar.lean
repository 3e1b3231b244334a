import TeamRoles.Json.Parser
import TeamRoles.Toml.Basic

/-!
Numbers, truth values, dates and times of TOML text, each a single word.
-/

namespace TeamRoles.Toml

def digitGroups? (isDigit : Char → Bool) (cs : List Char) : Option (List Char) :=
  let groups := (String.ofList cs).splitOn "_" |>.map String.toList
  if groups.all fun g => !g.isEmpty && g.all isDigit then some groups.flatten else none

def signed (negative : Bool) (n : Nat) : Int := if negative then -n else n

def sign (cs : List Char) : Bool × List Char :=
  match cs with
  | '-' :: rest => (true, rest)
  | '+' :: rest => (false, rest)
  | cs => (false, cs)

/-- A number to the base that its second character names. -/
def radix? (base : Nat) (cs : List Char) : Option Toml := do
  let isDigit c := match Json.hexDigit? c with
    | some d => decide (d < base)
    | none => false
  let ds ← digitGroups? isDigit cs
  let n := ds.foldl (fun n c => n * base + (Json.hexDigit? c).getD 0) 0
  if n < UInt64.size / 2 then return .int n else none

/-- The part of a number before point and exponent has no needless zero in front. -/
def whole? (cs : List Char) : Option (List Char) := do
  let ds ← digitGroups? Char.isDigit cs
  if 1 < ds.length && ds.head? == some '0' then none else return ds

def exponentPart? : List Char → Option Int
  | [] => some 0
  | _ :: rest => do
    let (negative, ds) := sign rest
    return signed negative (Json.digitsValue (← digitGroups? Char.isDigit ds))

def isExponentMark (c : Char) : Bool := c == 'e' || c == 'E'

/-- Does `mantissa * 10 ^ exponent` round to a finite double? -/
def isFinite (mantissa : Nat) (exponent : Int) : Bool :=
  let magnitude := ((Nat.toDigits 10 mantissa).length : Int) + exponent
  mantissa == 0 || magnitude ≤ 308 ||
    (magnitude ≤ 310 &&
      mantissa * Nat.pow 10 exponent.toNat < Json.overflow * Nat.pow 10 (-exponent).toNat)

/-- A decimal number; only a positive one must not exceed the largest double. -/
def decimal? (cs : List Char) : Option Toml := do
  let (negative, cs) := sign cs
  let beforeExponent := cs.takeWhile (!isExponentMark ·)
  let exponent ← exponentPart? (cs.dropWhile (!isExponentMark ·))
  let whole ← whole? (beforeExponent.takeWhile (· != '.'))
  let frac ← match beforeExponent.dropWhile (· != '.') with
    | [] => some []
    | _ :: ds => digitGroups? Char.isDigit ds
  if cs.all fun c => c.isDigit || c == '_' then
    let n := signed negative (Json.digitsValue whole)
    let half : Int := UInt64.size / 2
    if -half ≤ n ∧ n < half then return .int n else none
  else
    let mantissa := Json.digitsValue (whole ++ frac)
    let exponent := exponent - frac.length
    if negative || isFinite mantissa exponent then
      return .float (some (signed negative mantissa, exponent))
    else none

def number? (cs : List Char) : Option Toml :=
  match cs with
  | '0' :: 'x' :: rest => radix? 16 rest
  | '0' :: 'o' :: rest => radix? 8 rest
  | '0' :: 'b' :: rest => radix? 2 rest
  | cs =>
    let word := String.ofList (sign cs).2
    if word == "inf" || word == "nan" then some (.float none) else decimal? cs

/-- A number of so many digits within bounds. -/
def fixed? (width low high : Nat) (cs : List Char) : Option (Nat × List Char) :=
  let ds := cs.take width
  let n := Json.digitsValue ds
  if ds.length = width ∧ ds.all Char.isDigit ∧ low ≤ n ∧ n ≤ high then some (n, cs.drop width)
  else none

def mark? (c : Char) : List Char → Option (List Char)
  | d :: rest => if d == c then some rest else none
  | [] => none

def daysIn (year month : Nat) : Nat :=
  if month = 2 then
    if year % 4 = 0 ∧ (year % 100 ≠ 0 ∨ year % 400 = 0) then 29 else 28
  else if month ∈ [4, 6, 9, 11] then 30
  else 31

def date? (cs : List Char) : Option (List Char) := do
  let (year, cs) ← fixed? 4 0 9999 cs
  let (month, cs) ← fixed? 2 1 12 (← mark? '-' cs)
  let (_, cs) ← fixed? 2 1 (daysIn year month) (← mark? '-' cs)
  return cs

def hourMinute? (cs : List Char) : Option (List Char) := do
  let (_, cs) ← fixed? 2 0 23 cs
  let (_, cs) ← fixed? 2 0 59 (← mark? ':' cs)
  return cs

/-- What follows a time of day; a leap second counts. -/
def time? (cs : List Char) : Option (List Char) := do
  let (_, cs) ← fixed? 2 0 60 (← mark? ':' (← hourMinute? cs))
  match cs with
  | '.' :: ds => if (ds.takeWhile Char.isDigit).isEmpty then none else return ds.dropWhile Char.isDigit
  | cs => return cs

def isOffset : List Char → Bool
  | [] => true
  | ['Z'] | ['z'] => true
  | c :: rest => (c == '+' || c == '-') && hourMinute? rest == some []

def isTimeMark (c : Char) : Bool := c == 'T' || c == 't' || c == ' '

def isDateTime (cs : List Char) : Bool :=
  match date? cs with
  | some [] => true
  | some (c :: rest) => isTimeMark c && (time? rest).any isOffset
  | none => time? cs == some []

def scalar? (word : List Char) : Option Toml :=
  if word == "true".toList then some (.bool true)
  else if word == "false".toList then some (.bool false)
  else if isDateTime word then some (.dateTime (String.ofList word))
  else number? word

def isWordChar (c : Char) : Bool := !(c ∈ [' ', '\t', '\n', '\r', ',', ']', '\x7d', '#'])

/-- A scalar and what follows it. The time of a date may stand behind a blank. -/
def word? (cs : List Char) : Option (Toml × List Char) := do
  let word := cs.takeWhile isWordChar
  let rest := cs.dropWhile isWordChar
  let long := word ++ ' ' :: (rest.drop 1).takeWhile isWordChar
  if rest.head? == some ' ' && isDateTime long then
    return (.dateTime (String.ofList long), (rest.drop 1).dropWhile isWordChar)
  else return (← scalar? word, rest)

end TeamRoles.Toml
