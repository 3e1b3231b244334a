/-!
Text with colours, and its form for a terminal.
-/

namespace TeamRoles

inductive Color where
  | red | green | yellow | blue
  deriving DecidableEq

def Color.code : Color → Nat
  | .red => 1
  | .green => 2
  | .yellow => 3
  | .blue => 4

structure Style where
  color : Option Color := none
  bold : Bool := false
  bright : Bool := false
  deriving DecidableEq

namespace Style

def escape (codes : String) : String := "\x1b[" ++ codes ++ "m"

def reset : String := escape "0"

def colorCodes (bright : Bool) (c : Color) : String :=
  if bright then "38;5;" ++ (c.code + 8).repr else "3" ++ c.code.repr

/-- The sequence that turns a style on, whatever was on before. -/
def sequence (s : Style) : String :=
  reset ++ (if s.bold then escape "1" else "") ++
    match s.color with
    | some c => escape (colorCodes s.bright c)
    | none => ""

end Style

/-- A text whose parts may have a style. -/
abbrev Styled := List (Option Style × String)

namespace Styled

def plain (text : String) : Styled := [(none, text)]

def styled (s : Style) (text : String) : Styled := [(some s, text)]

def isStyled : Styled → Bool
  | (some _, _) :: _ => true
  | _ => false

def text (parts : Styled) : String := String.join (parts.map (·.2))

/-- The text with its styles; they are turned off where plain text follows. -/
def terminal : Styled → String
  | [] => ""
  | (none, text) :: rest => text ++ terminal rest
  | (some s, text) :: rest =>
    s.sequence ++ text ++ (if isStyled rest then "" else Style.reset) ++ terminal rest

def render (colored : Bool) (parts : Styled) : String :=
  if colored then parts.terminal else parts.text

end Styled

end TeamRoles
