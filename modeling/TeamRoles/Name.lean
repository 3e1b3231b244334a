import TeamRoles.Modifiers

/-!
Qualified names and the names of generated members.

A qualified name is a package path with dots, then the type and its nested types with `$`. Generated
members carry a reserved opening, so that they never meet a name written in a program; three
families of them are recognised: base-call surrogates, field accessors and precedence wrappers.
-/

namespace TeamRoles.Name

def dropFront? (p s : String) : Option String := (p.toList.isPrefixOf? s.toList).map String.ofList

def dropEnd? (p s : String) : Option String := (p.toList.isSuffixOf? s.toList).map String.ofList

def generated : String := "_weave$"
def getterStart : String := "_weave$get$"
def setterStart : String := "_weave$set$"
def precedenceStart : String := "_weave$prec$"
def surrogateEnd : String := "$base"

def surrogate (method : String) : String := generated ++ method ++ surrogateEnd

def surrogateTarget? (name : String) : Option String := do
  let m ← dropEnd? surrogateEnd (← dropFront? generated name)
  if m.toList.isEmpty || m.toList.contains '$' then none else some m

def isSurrogate (name : String) : Bool := (surrogateTarget? name).isSome

def getter (field : String) : String := getterStart ++ field
def setter (field : String) : String := setterStart ++ field

def isAccessor (name : String) : Bool :=
  match dropFront? getterStart name <|> dropFront? setterStart name with
  | some field => !field.toList.isEmpty
  | none => false

def precedenceWrapper (index : Nat) : String := precedenceStart ++ index.repr

def isPrecedenceWrapper (name : String) : Bool :=
  match dropFront? precedenceStart name with
  | some index => !index.toList.isEmpty && index.toList.all Char.isDigit
  | none => false

def isGenerated (name : String) : Bool := (dropFront? generated name).isSome

def isSeparator (c : Char) : Bool := c == '.' || c == '$'

def simple (qualified : String) : String :=
  String.ofList (qualified.toList.reverse.takeWhile (!isSeparator ·)).reverse

/-- What stands before the last dot of the outermost type's name. -/
def packageOf (qualified : String) : String :=
  let top := qualified.toList.takeWhile (· != '$')
  String.ofList ((top.reverse.dropWhile (· != '.')).drop 1).reverse

def qualify (package simple : String) : String :=
  if package.isEmpty then simple else package ++ "." ++ simple

/-- A static method of a role gets its team as a hidden argument, unless it is an accessor. -/
def needsTeamInstance (m : Modifiers) (inRole : Bool) (method : String) : Bool :=
  m.isStatic && inRole && !isAccessor method

end TeamRoles.Name
