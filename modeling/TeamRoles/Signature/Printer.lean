import TeamRoles.Signature.Basic

/-!
The text of signatures.
-/

namespace TeamRoles.Signature

/-- The package path of a class is written with slashes. -/
def slashes (name : String) : List Char := name.toList.map fun c => if c = '.' then '/' else c

def argList : List Char → List Char
  | [] => []
  | cs => '<' :: cs ++ ['>']

mutual

def TypeSig.print : TypeSig → List Char
  | .base b => [b.code]
  | .cls segments => 'L' :: printSegments segments ++ [';']
  | .var name => 'T' :: name.toList ++ [';']
  | .array component => '[' :: component.print

/-- The first segment carries the package, each further one follows a dot. -/
def printSegments : List Segment → List Char
  | [] => []
  | .mk name args :: inner => slashes name ++ argList (printArgs args) ++ printInner inner

def printInner : List Segment → List Char
  | [] => []
  | .mk name args :: inner => '.' :: name.toList ++ argList (printArgs args) ++ printInner inner

def printArgs : List TypeArg → List Char
  | [] => []
  | arg :: args => arg.print ++ printArgs args

def TypeArg.print : TypeArg → List Char
  | .any => ['*']
  | .extends bound => '+' :: bound.print
  | .super bound => '-' :: bound.print
  | .exact type => type.print

end

def ClassType.print (c : ClassType) : List Char := c.toTypeSig.print

def Formal.print (p : Formal) : List Char :=
  p.name.toList ++ ':' :: (p.classBound.toList.flatMap TypeSig.print ++
    p.interfaceBounds.flatMap (fun bound => ':' :: bound.print))

def printFormals (ps : List Formal) : List Char := argList (ps.flatMap Formal.print)

def ClassSig.print (s : ClassSig) : List Char :=
  printFormals s.formals ++ s.superclass.print ++ s.interfaces.flatMap ClassType.print

def MethodSig.print (s : MethodSig) : List Char :=
  printFormals s.formals ++ '(' :: s.params.flatMap TypeSig.print ++ ')' :: s.ret.print ++
    s.throws.flatMap (fun thrown => '^' :: thrown.print)

def TypeSig.text (t : TypeSig) : String := String.ofList t.print
def ClassType.text (c : ClassType) : String := String.ofList c.print
def ClassSig.text (s : ClassSig) : String := String.ofList s.print
def MethodSig.text (s : MethodSig) : String := String.ofList s.print

end TeamRoles.Signature
