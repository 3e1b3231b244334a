/-!
The words of a command line, sorted into options, operands and requests for help.
-/

namespace TeamRoles.Command

structure Flag where
  long : String
  short : Option Char := none

inductive Argument where
  | value (flag text : String)
  /-- A word that is no option, and all that follows it. -/
  | word (text : String) (following : List String)
  /-- A word behind the mark that ends the options. -/
  | operand (text : String)
  | help (long : Bool)
  | version
  | invalid

namespace Argument

/-- A word that starts with a dash is an option, a single dash is not. -/
def isOption (word : String) : Bool := word.toList.head? == some '-' && word != "-"

/-- What an option says by itself: the flag it names still lacks its value. -/
inductive Reading where
  | complete (a : Argument)
  | lacksValue (flag : String)

def readLong (flags : List Flag) (hasVersion : Bool) (word : List Char) : Reading :=
  let name := String.ofList (word.takeWhile (· != '='))
  match word.dropWhile (· != '='), flags.find? (·.long == name) with
  | _ :: text, some flag => .complete (.value flag.long (String.ofList text))
  | [], some flag => .lacksValue flag.long
  | [], none =>
    if name == "help" then .complete (.help true)
    else if name == "version" && hasVersion then .complete .version
    else .complete .invalid
  | _ :: _, none => .complete .invalid

/-- The value of a short option may follow it at once, also behind an equals sign. -/
def readShort (flags : List Flag) (hasVersion : Bool) (c : Char) (rest : List Char) : Reading :=
  match flags.find? (·.short == some c), rest with
  | some flag, [] => .lacksValue flag.long
  | some flag, '=' :: text => .complete (.value flag.long (String.ofList text))
  | some flag, text => .complete (.value flag.long (String.ofList text))
  | none, _ =>
    if c == 'h' then .complete (.help false)
    else if c == 'V' && hasVersion then .complete .version
    else .complete .invalid

def readOption (flags : List Flag) (hasVersion : Bool) (word : String) : Reading :=
  match word.toList with
  | '-' :: '-' :: rest => readLong flags hasVersion rest
  | '-' :: c :: rest => readShort flags hasVersion c rest
  | _ => .complete .invalid

/-- Sorts words; `pending` is the option whose value comes next. -/
def ofWords (flags : List Flag) (hasVersion : Bool) (pending : Option String) :
    List String → List Argument
  | [] => if pending.isSome then [.invalid] else []
  | w :: rest =>
    match pending with
    | some flag =>
      if isOption w then [.invalid] else .value flag w :: ofWords flags hasVersion none rest
    | none =>
      if w == "--" then rest.map .operand
      else if isOption w then
        match readOption flags hasVersion w with
        | .complete a => a :: ofWords flags hasVersion none rest
        | .lacksValue flag => ofWords flags hasVersion (some flag) rest
      else .word w rest :: ofWords flags hasVersion none rest

end Argument

end TeamRoles.Command
