/-!
Generic signatures of types, class heads and methods.
-/

namespace TeamRoles

inductive BaseType where
  | byte | char | double | float | int | long | short | boolean | void
  deriving DecidableEq, Inhabited

namespace BaseType

def all : List BaseType := [.byte, .char, .double, .float, .int, .long, .short, .boolean, .void]

/-- The letter of a base type in a signature. -/
def code : BaseType → Char
  | .byte => 'B'
  | .char => 'C'
  | .double => 'D'
  | .float => 'F'
  | .int => 'I'
  | .long => 'J'
  | .short => 'S'
  | .boolean => 'Z'
  | .void => 'V'

def keyword : BaseType → String
  | .byte => "byte"
  | .char => "char"
  | .double => "double"
  | .float => "float"
  | .int => "int"
  | .long => "long"
  | .short => "short"
  | .boolean => "boolean"
  | .void => "void"

def ofCode? (c : Char) : Option BaseType := all.find? (·.code == c)

def ofKeyword? (word : String) : Option BaseType := all.find? (·.keyword == word)

end BaseType

namespace Signature

mutual

inductive TypeSig where
  | base (b : BaseType)
  | cls (segments : List Segment)
  | var (name : String)
  | array (component : TypeSig)

/-- A class name, or the name of a class nested in the segments before it, with its arguments. -/
inductive Segment where
  | mk (name : String) (args : List TypeArg)

inductive TypeArg where
  | any
  | extends (bound : TypeSig)
  | super (bound : TypeSig)
  | exact (type : TypeSig)

end

def Segment.name : Segment → String
  | .mk name _ => name

def Segment.args : Segment → List TypeArg
  | .mk _ args => args

structure ClassType where
  segments : List Segment

namespace ClassType

def simple (qualified : String) : ClassType := ⟨[.mk qualified []]⟩

def qualifiedName (c : ClassType) : String := "$".intercalate (c.segments.map Segment.name)

def args (c : ClassType) : List TypeArg := (c.segments.getLast?.map Segment.args).getD []

def toTypeSig (c : ClassType) : TypeSig := .cls c.segments

end ClassType

structure Formal where
  name : String
  classBound : Option TypeSig
  interfaceBounds : List TypeSig

def Formal.bounds (p : Formal) : List TypeSig := p.classBound.toList ++ p.interfaceBounds

structure ClassSig where
  formals : List Formal
  superclass : ClassType
  interfaces : List ClassType

structure MethodSig where
  formals : List Formal
  params : List TypeSig
  ret : TypeSig
  throws : List TypeSig

end Signature

end TeamRoles
