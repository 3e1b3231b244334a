import TeamRoles.Command.Arguments

/-!
What a command line asks for.
-/

namespace TeamRoles.Command

inductive Format where
  | pretty | json
  deriving DecidableEq

def Format.ofWord? : String → Option Format
  | "pretty" => some .pretty
  | "json" => some .json
  | _ => none

inductive Task where
  | check (units : String) (descriptors config : Option String) (format : Format)
  | describe (file : String)
  | encode (file output : String)

inductive Topic where
  | program | check | describe | encode | help
  deriving DecidableEq

inductive Request where
  | run (color : Option String) (task : Task)
  | help (topic : Topic) (long : Bool)
  | version

structure Collected where
  values : List (String × String) := []
  operands : List String := []

namespace Collected

def value? (c : Collected) (flag : String) : Option String := c.values.lookup flag

/-- Any text may stand for a colour choice, a format must be known, and a path must not be empty. -/
def accepts (flag text : String) : Bool :=
  if flag == "color" then true
  else if flag == "format" then (Format.ofWord? text).isSome
  else text != ""

def addOperand (most : Nat) (c : Collected) (text : String) : Option Collected :=
  if c.operands.length < most ∧ text ≠ "" then some { c with operands := c.operands ++ [text] } else none

end Collected

inductive Collection where
  | complete (c : Collected)
  | help (long : Bool)

/-- Collects arguments from left to right, up to the first that is wrong or asks for help. -/
def collect (most : Nat) (c : Collected) : List Argument → Option Collection
  | [] => some (.complete c)
  | .value flag text :: rest =>
    if (c.value? flag).isSome || !Collected.accepts flag text then none
    else collect most { c with values := (flag, text) :: c.values } rest
  | .word text _ :: rest => do collect most (← c.addOperand most text) rest
  | .operand text :: rest => do collect most (← c.addOperand most text) rest
  | .help long :: _ => some (.help long)
  | .version :: _ => none
  | .invalid :: _ => none

namespace Request

def colorFlag : Flag := ⟨"color", none⟩

def flags : Topic → List Flag
  | .check => [⟨"units", some 'u'⟩, ⟨"descriptors", some 'd'⟩, ⟨"config", some 'c'⟩,
      ⟨"format", some 'f'⟩, colorFlag]
  | .encode => [⟨"output", some 'o'⟩, colorFlag]
  | _ => [colorFlag]

def task? (topic : Topic) (c : Collected) : Option Task :=
  match topic, c.operands with
  | .check, [] => do
    let format := ((c.value? "format").bind Format.ofWord?).getD .pretty
    return .check (← c.value? "units") (c.value? "descriptors") (c.value? "config") format
  | .describe, [file] => some (.describe file)
  | .encode, [file] => do return .encode file (← c.value? "output")
  | _, _ => none

def topic? : String → Option Topic
  | "check" => some .check
  | "describe" => some .describe
  | "encode" => some .encode
  | "help" => some .help
  | _ => none

/-- A colour choice behind the name of the task wins over one in front of it. -/
def ofTask? (color : Option String) (topic : Topic) (words : List String) : Option Request := do
  let most := if topic = .check then 0 else 1
  match ← collect most {} (Argument.ofWords (flags topic) false none words) with
  | .complete c => return .run (c.value? "color" <|> color) (← task? topic c)
  | .help long => return .help topic long

def ofArguments? (color : Option String) : List Argument → Option Request
  | [] => none
  | .value _ text :: rest => if color.isSome then none else ofArguments? (some text) rest
  | .word name following :: _ => do
    match ← topic? name, following with
    | .help, [] => return .help .program true
    | .help, [name] => return .help (← topic? name) true
    | .help, _ => none
    | topic, words => ofTask? color topic words
  | .help long :: _ => some (.help .program long)
  | .version :: _ => some .version
  | .operand _ :: _ => none
  | .invalid :: _ => none

/-- The request of a command line, if it is one. -/
def parse? (words : List String) : Option Request :=
  ofArguments? none (Argument.ofWords (flags .program) true none words)

end Request

end TeamRoles.Command
