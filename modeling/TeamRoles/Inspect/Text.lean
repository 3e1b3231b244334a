import TeamRoles.Env.Basic

/-!
Unambiguous texts of types and members, which say more than the names that problems show: why a type
is a problem, whose variable a variable is, what an instantiation lies in.
-/

namespace TeamRoles

def ProblemReason.word : ProblemReason → String
  | .notFound => "NotFound"
  | .notVisible => "NotVisible"
  | .ambiguous => "Ambiguous"
  | .hierarchyCycle => "HierarchyCycle"
  | .invalidAnchor => "InvalidAnchor"
  | .corrupt => "Corrupt"

namespace Env

def showField (e : Env) (f : FieldId) : String :=
  (e.binding (e.field f).declaring).name ++ "." ++ (e.field f).name

def showBinding (e : Env) (b : BindingId) : String :=
  match (e.binding b).origin with
  | .problem reason => "!" ++ reason.word ++ ":" ++ (e.binding b).name
  | _ => (e.binding b).name

def showVar (e : Env) (v : TypeVarId) : String :=
  (e.typeVar v).name ++ "^" ++ match (e.typeVar v).owner with
    | .type b => (e.binding b).name
    | .method declaring => (e.binding declaring).name ++ "()"

mutual

def showTypeWith (e : Env) (showCapture : CaptureId → String) : Ty → String
  | .primitive b => b.keyword
  | .null => "null"
  | .declared b => e.showBinding b
  | .parameterized generic args enclosing =>
    showOuterWith e showCapture enclosing ++ (e.binding generic).name ++ "<" ++
      ",".intercalate (showTypesWith e showCapture args) ++ ">"
  | .raw generic enclosing =>
    showOuterWith e showCapture enclosing ++ (e.binding generic).name ++ "#raw"
  | .variable v => e.showVar v
  | .wildcard .extends (some bound) => "?+" ++ showTypeWith e showCapture bound
  | .wildcard .super (some bound) => "?-" ++ showTypeWith e showCapture bound
  | .wildcard _ _ => "?"
  | .captured c => showCapture c
  | .array component => showTypeWith e showCapture component ++ "[]"
  | .anchored role path =>
    showTypeWith e showCapture role ++ "<@" ++ "/".intercalate (path.map e.showField) ++ ">"

def showTypesWith (e : Env) (showCapture : CaptureId → String) : List Ty → List String
  | [] => []
  | t :: rest => showTypeWith e showCapture t :: showTypesWith e showCapture rest

def showOuterWith (e : Env) (showCapture : CaptureId → String) : Option Ty → String
  | none => ""
  | some t => showTypeWith e showCapture t ++ "::"

end

def showCapture (e : Env) : Nat → CaptureId → String
  | 0, c => "capture#" ++ c.index.repr
  | fuel + 1, c =>
    "capture#" ++ c.index.repr ++ "(" ++
      e.showTypeWith (e.showCapture fuel) (e.capture c).wildcard ++ ")"

def showType (e : Env) (t : Ty) : String := e.showTypeWith (e.showCapture e.captures.size) t

def showMethod (e : Env) (m : MethodId) : String :=
  e.methodName m ++ "(" ++ ",".intercalate ((e.method m).declared.params.map e.showType) ++ ")"

end Env

end TeamRoles
