import TeamRoles.Signature.Basic

/-!
Reading signatures. A failure names what was expected and the byte offset where it was missing.
-/

namespace TeamRoles.Signature

inductive Expected where
  | type | identifier | semicolon | closingAngle | typeArgument | colon | typeParameter
  | classType | interfaceType | openingParen | closingParen | endOfText
  deriving DecidableEq

def Expected.text : Expected → String
  | .type => "type"
  | .identifier => "identifier"
  | .semicolon => "';'"
  | .closingAngle => "'>'"
  | .typeArgument => "type argument"
  | .colon => "':'"
  | .typeParameter => "type parameter"
  | .classType => "class type"
  | .interfaceType => "interface type"
  | .openingParen => "'('"
  | .closingParen => "')'"
  | .endOfText => "end of signature"

structure Error where
  signature : String
  offset : Nat
  expected : Expected
  deriving DecidableEq

def Error.message (e : Error) : String :=
  "malformed signature '" ++ e.signature ++ "' at offset " ++ e.offset.repr ++ ": " ++ e.expected.text

/-- What is left of a signature, and how many bytes were read. -/
structure Cursor where
  offset : Nat
  rest : List Char

/-- A step of the parser; it fails with an offset. -/
abbrev Parser := StateT Cursor (Except (Nat × Expected))

namespace Parser

def peek : Parser (Option Char) := return (← get).rest.head?

def fail {α : Type} (e : Expected) : Parser α := do throw ((← get).offset, e)

def width (cs : List Char) : Nat := cs.foldl (fun n c => n + c.utf8Size) 0

/-- Reads the longest run of characters that satisfy `p`. -/
def takeRun (p : Char → Bool) : Parser (List Char) := do
  let c ← get
  let taken := c.rest.takeWhile p
  set (Cursor.mk (c.offset + width taken) (c.rest.dropWhile p))
  return taken

def bump : Parser Unit := do
  let c ← get
  match c.rest with
  | [] => return ()
  | x :: rest => set (Cursor.mk (c.offset + x.utf8Size) rest)

def expect (x : Char) (e : Expected) : Parser Unit := do
  if (← peek) = some x then bump else fail e

def ident (stops : List Char) : Parser (List Char) := do
  let name ← takeRun (!stops.contains ·)
  if name.isEmpty then fail .identifier else return name

def dots (path : List Char) : String := String.ofList (path.map fun c => if c = '/' then '.' else c)

mutual

def typeSig (fuel : Nat) : Parser TypeSig :=
  match fuel with
  | 0 => fail .type
  | fuel + 1 => do
    match ← peek with
    | some 'L' => bump; return .cls (← segments fuel)
    | some 'T' =>
      bump
      let name ← ident [';']
      expect ';' .semicolon
      return .var (String.ofList name)
    | some '[' => bump; return .array (← typeSig fuel)
    | some c => match BaseType.ofCode? c with
      | some b => bump; return .base b
      | none => fail .type
    | none => fail .type

/-- A class type behind its letter, up to the semicolon. -/
def segments (fuel : Nat) : Parser (List Segment) :=
  match fuel with
  | 0 => fail .type
  | fuel + 1 => do
    let path ← ident ['<', '.', ';']
    let args ← typeArgs fuel
    let inner ← innerSegments fuel
    return .mk (dots path) args :: inner

def innerSegments (fuel : Nat) : Parser (List Segment) :=
  match fuel with
  | 0 => fail .type
  | fuel + 1 => do
    if (← peek) = some '.' then
      bump
      let name ← ident ['<', '.', ';']
      let args ← typeArgs fuel
      return .mk (String.ofList name) args :: (← innerSegments fuel)
    else
      expect ';' .semicolon
      return []

def typeArgs (fuel : Nat) : Parser (List TypeArg) :=
  match fuel with
  | 0 => fail .type
  | fuel + 1 => do
    if (← peek) = some '<' then
      bump
      let args ← argsUntilClosed fuel
      if args.isEmpty then fail .typeArgument else return args
    else return []

def argsUntilClosed (fuel : Nat) : Parser (List TypeArg) :=
  match fuel with
  | 0 => fail .type
  | fuel + 1 => do
    match ← peek with
    | some '>' => bump; return []
    | some '*' => bump; return .any :: (← argsUntilClosed fuel)
    | some '+' =>
      bump
      let bound ← typeSig fuel
      return .extends bound :: (← argsUntilClosed fuel)
    | some '-' =>
      bump
      let bound ← typeSig fuel
      return .super bound :: (← argsUntilClosed fuel)
    | some _ =>
      let type ← typeSig fuel
      return .exact type :: (← argsUntilClosed fuel)
    | none => fail .closingAngle

end

/-- Types behind a mark, as long as the mark is found. -/
def marked (mark : Char) (fuel : Nat) : Nat → Parser (List TypeSig)
  | 0 => fail .type
  | n + 1 => do
    if (← peek) = some mark then
      bump
      let type ← typeSig fuel
      return type :: (← marked mark fuel n)
    else return []

/-- The class bound of a parameter is left out before an interface bound and at the end. -/
def classBound (fuel : Nat) : Parser (Option TypeSig) := do
  let next ← peek
  if next = some ':' ∨ next = some '>' then return none else return some (← typeSig fuel)

def formal (fuel : Nat) : Parser Formal := do
  let name ← ident [':', '>']
  expect ':' .colon
  let classBound ← classBound fuel
  return ⟨String.ofList name, classBound, ← marked ':' fuel fuel⟩

def formalsUntilClosed (fuel : Nat) : Nat → Parser (List Formal)
  | 0 => fail .type
  | n + 1 => do
    if (← peek) = some '>' then
      bump
      return []
    let p ← formal fuel
    if (← peek).isNone then fail .closingAngle else return p :: (← formalsUntilClosed fuel n)

def formals (fuel : Nat) : Parser (List Formal) := do
  if (← peek) = some '<' then
    bump
    let ps ← formalsUntilClosed fuel fuel
    if ps.isEmpty then fail .typeParameter else return ps
  else return []

def finish : Parser Unit := do
  if (← peek).isNone then return () else fail .endOfText

def classType (fuel : Nat) (e : Expected) : Parser ClassType := do
  expect 'L' e
  return ⟨← segments fuel⟩

def interfacesUntilEnd (fuel : Nat) : Nat → Parser (List ClassType)
  | 0 => fail .type
  | n + 1 => do
    if (← peek).isNone then return []
    let i ← classType fuel .interfaceType
    return i :: (← interfacesUntilEnd fuel n)

def paramsUntilClosed (fuel : Nat) : Nat → Parser (List TypeSig)
  | 0 => fail .type
  | n + 1 => do
    match ← peek with
    | some ')' => bump; return []
    | none => fail .closingParen
    | some _ =>
      let type ← typeSig fuel
      return type :: (← paramsUntilClosed fuel n)

def wholeType (fuel : Nat) : Parser TypeSig := do
  let type ← typeSig fuel
  finish
  return type

def wholeClass (fuel : Nat) : Parser ClassSig := do
  let formals ← formals fuel
  let superclass ← classType fuel .classType
  return ⟨formals, superclass, ← interfacesUntilEnd fuel fuel⟩

def wholeMethod (fuel : Nat) : Parser MethodSig := do
  let formals ← formals fuel
  expect '(' .openingParen
  let params ← paramsUntilClosed fuel fuel
  let ret ← typeSig fuel
  let throws ← marked '^' fuel fuel
  finish
  return ⟨formals, params, ret, throws⟩

/-- Between two characters that are read at most three nested steps begin, which bounds the depth. -/
def fuelFor (text : String) : Nat := 4 * text.toList.length + 4

def parse {α : Type} (p : Nat → Parser α) (text : String) : Except Error α :=
  match (p (fuelFor text)).run ⟨0, text.toList⟩ with
  | .ok (a, _) => .ok a
  | .error (offset, expected) => .error ⟨text, offset, expected⟩

end Parser

def parseType (text : String) : Except Error TypeSig := Parser.parse Parser.wholeType text
def parseClass (text : String) : Except Error ClassSig := Parser.parse Parser.wholeClass text
def parseMethod (text : String) : Except Error MethodSig := Parser.parse Parser.wholeMethod text

end TeamRoles.Signature
